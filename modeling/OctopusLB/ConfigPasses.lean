/-
# The two passes over the configuration file

`initialize_logging` reads the file through a buffer of `MAX_CONF_LINE_LEN`
bytes, `parse_config_file` through one of 1000; `fgets` cuts a line that does
not fit and returns the rest as the next line.  `passesAgree_iff`: the
directives `log_file` and `debug_level` that the first pass sees are the ones
that the second would see, at the same places, exactly if no longer line hides
one behind a cut (`CutSafely`).  What the first pass leaves in the settings is what
the directives say that it sees (`shared_initializeLogging`).
-/
import OctopusLB.ConfigSafety

namespace OctopusLB

open CString TextLines

/-! ## What a pass sees -/

/-- A directive of `initialize_logging`. -/
def IsLogDirective (directive : List UInt8) : Prop :=
  hasPrefix "log_file" directive = true ∨ hasPrefix "debug_level" directive = true

instance (directive : List UInt8) : Decidable (IsLogDirective directive) := by
  unfold IsLogDirective
  infer_instance

/-- A directive of the log found in the file: where, and with which value. -/
structure LogEntry where
  offset : ℕ
  directive : List UInt8
  value : Option (List UInt8)
  deriving DecidableEq

/-- What a pass makes of one call of `fgets`. -/
def logEntry (p : ℕ × List UInt8) : Option LogEntry :=
  match splitLine p.2 with
  | ⟨some directive, value⟩ =>
      if IsLogDirective directive then some ⟨p.1, directive, value⟩ else none
  | ⟨none, _⟩ => none

/-- What a pass sees of a file. -/
def logEntries (room : ℕ) (file : List UInt8) : List LogEntry :=
  (located room file).filterMap logEntry

/-- The bytes of a line that its directive and its value depend on: up to the end
of the value, without white space behind it, and one byte of it at least; up to
the end of the directive if there is no value. -/
def usedLength (line : List UInt8) : ℕ :=
  let str := cstr line
  let skipped := (str.takeWhile (· = 61)).length
  let directive := (str.dropWhile (· = 61)).takeWhile (· ≠ 61)
  let rest := afterDirective line
  if NoValue line then skipped + (directive.rdropWhile isSpace).length
  else
    let start := skipped + directive.length + 1 + (rest.takeWhile valueDelimiter).length
    let value := (rest.dropWhile valueDelimiter).takeWhile fun b => !valueDelimiter b
    max (start + 1) (start + (value.rdropWhile isSpace).length)

/-- A line that a buffer with that room may cut: no later piece of it starts with
a directive of the log, and if the line does, all that counts is in the first
piece. -/
def CutSafely (room : ℕ) (line : List UInt8) : Prop :=
  line.length ≤ room ∨
    ((∀ j, 0 < j → ¬ IsLogDirective (directiveOf ((line.drop (room * j)).take room))) ∧
      (IsLogDirective (directiveOf line) → usedLength line ≤ room))

/-- Past its end, a line has no pieces to look at. -/
instance (room : ℕ) (line : List UInt8) : Decidable (CutSafely room line) :=
  decidable_of_iff (line.length ≤ room ∨ ((∀ j < line.length, 0 < j →
      ¬ IsLogDirective (directiveOf ((line.drop (room * j)).take room))) ∧
    (IsLogDirective (directiveOf line) → usedLength line ≤ room))) <| by
  refine or_congr_right (and_congr_left fun _ => ⟨fun h j hj => ?_, fun h j _ hj => h j hj⟩)
  by_cases hlt : j < line.length
  · exact h j hlt hj
  · have hnil : (line.drop (room * j)).take room = [] := by
      rw [List.take_eq_nil_iff, List.drop_eq_nil_iff]
      rcases Nat.eq_zero_or_pos room with hzero | hpos
      · exact Or.inl hzero
      · exact Or.inr ((not_lt.mp hlt).trans (Nat.le_mul_of_pos_left j hpos))
    rw [hnil]
    decide

/-! ## White space -/

/-- It does not matter which end is trimmed first. -/
theorem trimWhiteSpace_eq (str : List UInt8) :
    trimWhiteSpace str = (str.rdropWhile isSpace).dropWhile isSpace := by
  unfold trimWhiteSpace
  induction str using List.reverseRecOn with
  | nil => rfl
  | append_singleton str b ih =>
      rw [List.dropWhile_append]
      by_cases hb : isSpace b = true
      · rw [List.rdropWhile_concat_pos _ _ _ hb, ← ih]
        split_ifs with hnil
        · rw [List.dropWhile_cons_of_pos hb, List.isEmpty_iff.mp hnil]
          rfl
        · rw [List.rdropWhile_concat_pos _ _ _ hb]
      · rw [List.rdropWhile_concat_neg _ _ _ hb, List.dropWhile_append]
        split_ifs with hnil
        · rw [List.dropWhile_cons_of_neg hb, List.rdropWhile_singleton, if_neg hb]
        · rw [List.rdropWhile_concat_neg _ _ _ hb]

/-- White space at the end is trimmed away. -/
theorem rdropWhile_append_of_space {str right : List UInt8}
    (h : ∀ b ∈ right, isSpace b = true) :
    (str ++ right).rdropWhile isSpace = str.rdropWhile isSpace := by
  induction right using List.reverseRecOn with
  | nil => rw [List.append_nil]
  | append_singleton right b ih =>
      have hb := h b (List.mem_append_right right (List.mem_singleton_self b))
      rw [← List.append_assoc, List.rdropWhile_concat_pos _ _ _ hb]
      exact ih fun c hc => h c (List.mem_append_left _ hc)

/-- What is trimmed at the end does not count. -/
theorem rdropWhile_take {str : List UInt8} {n : ℕ} (h : (str.rdropWhile isSpace).length ≤ n) :
    (str.take n).rdropWhile isSpace = str.rdropWhile isSpace := by
  have hsplit : str.rdropWhile isSpace ++ str.rtakeWhile isSpace = str :=
    List.rdropWhile_append_rtakeWhile
  have hblank : ∀ b ∈ (str.rtakeWhile isSpace).take (n - (str.rdropWhile isSpace).length),
      isSpace b = true := fun b hb => List.mem_rtakeWhile_imp (List.mem_of_mem_take hb)
  have hcut : str.take n = str.rdropWhile isSpace ++
      (str.rtakeWhile isSpace).take (n - (str.rdropWhile isSpace).length) := by
    conv_lhs => rw [← hsplit]
    rw [List.take_append, List.take_of_length_le h]
  rw [hcut, rdropWhile_append_of_space hblank, List.rdropWhile_idempotent]

/-- **Trimming after a cut** gives the same exactly if nothing but white space has
been cut off. -/
theorem trimWhiteSpace_take_iff (str : List UInt8) (n : ℕ) :
    trimWhiteSpace (str.take n) = trimWhiteSpace str ↔ (str.rdropWhile isSpace).length ≤ n := by
  constructor
  · intro h
    by_contra hlt
    -- the cut goes through what is kept
    have hsplit : (str.rdropWhile isSpace).takeWhile isSpace ++
        (str.rdropWhile isSpace).dropWhile isSpace = str.rdropWhile isSpace :=
      List.takeWhile_append_dropWhile
    have hlen := congrArg List.length hsplit
    rw [List.length_append, ← trimWhiteSpace_eq] at hlen
    have hcut : (trimWhiteSpace (str.take n)).length ≤ n - (str.takeWhile isSpace).length := by
      unfold trimWhiteSpace
      refine (List.rdropWhile_prefix isSpace _).length_le.trans ?_
      rw [dropWhile_take]
      exact List.length_take_le _ _
    have hlead : ((str.rdropWhile isSpace).takeWhile isSpace).length ≤
        (str.takeWhile isSpace).length := by
      obtain ⟨rest, hrest⟩ := List.rdropWhile_prefix isSpace str
      conv_rhs => rw [← hrest]
      rw [List.takeWhile_append]
      split_ifs
      · rw [List.length_append]
        have hle := (List.takeWhile_prefix (l := str.rdropWhile isSpace) isSpace).length_le
        omega
      · exact Nat.le_refl _
    have hkept : trimWhiteSpace str ≠ [] := by
      rw [trimWhiteSpace_eq]
      intro hnil
      have hall := List.dropWhile_eq_nil_iff.mp hnil
      have hne : str.rdropWhile isSpace ≠ [] := by
        intro hnil'
        rw [hnil'] at hlt
        exact hlt (Nat.zero_le n)
      exact List.rdropWhile_last_not isSpace str hne (hall _ (List.getLast_mem hne))
    have hpos := List.length_pos_of_ne_nil hkept
    rw [h] at hcut
    omega
  · intro h
    rw [trimWhiteSpace_eq, trimWhiteSpace_eq, rdropWhile_take h]

/-! ## One line -/

theorem cstr_take (line : List UInt8) (m : ℕ) : cstr (line.take m) = (cstr line).take m :=
  (List.take_takeWhile).symm

/-- The directive of a line, untrimmed. -/
def rawDirective (line : List UInt8) : List UInt8 :=
  ((cstr line).dropWhile (· = 61)).takeWhile (· ≠ 61)

theorem nextToken_cstr {line : List UInt8} (h : ¬ NoDirective line) :
    nextToken (· = 61) (cstr line) = some (rawDirective line, afterDirective line) := by
  rw [nextToken_of_not fun hall => h fun b hb => of_decide_eq_true (hall b hb)]
  simp [rawDirective, afterDirective]

/-- A line with a directive of the log has a directive, and not only blanks. -/
theorem directive_of_isLog {line : List UInt8} (h : IsLogDirective (directiveOf line)) :
    ¬ NoDirective line ∧ 0 < ((rawDirective line).rdropWhile isSpace).length := by
  have hne : directiveOf line ≠ [] := by
    intro hnil
    rw [hnil] at h
    revert h
    decide
  refine ⟨fun hno => hne ?_, List.length_pos_of_ne_nil fun hnil => hne ?_⟩
  · have hskip : (cstr line).dropWhile (· = 61) = [] :=
      List.dropWhile_eq_nil_iff.mpr fun b hb => decide_eq_true (hno b hb)
    unfold directiveOf
    rw [hskip]
    rfl
  · show trimWhiteSpace (rawDirective line) = []
    rw [trimWhiteSpace_eq, hnil]
    rfl

/-- **A cut line** is read as the whole one exactly if all that is used of it
comes before the cut. -/
theorem splitLine_take_iff {line : List UInt8} (h : IsLogDirective (directiveOf line)) (m : ℕ) :
    splitLine (line.take m) = splitLine line ↔ usedLength line ≤ m := by
  obtain ⟨hno, hkept⟩ := directive_of_isLog h
  have hline := splitLine_of_directive hno
  have hcut : nextToken (· = 61) (cstr (line.take m)) =
      if m ≤ ((cstr line).takeWhile (· = 61)).length then none
      else some ((rawDirective line).take (m - ((cstr line).takeWhile (· = 61)).length),
        (afterDirective line).take
          (m - ((cstr line).takeWhile (· = 61)).length - (rawDirective line).length - 1)) := by
    rw [cstr_take, nextToken_take, nextToken_cstr hno]
    rfl
  have hraw : directiveOf line = trimWhiteSpace (rawDirective line) := rfl
  rw [hraw] at hline
  have hused : usedLength line =
      if NoValue line then ((cstr line).takeWhile (· = 61)).length +
        ((rawDirective line).rdropWhile isSpace).length
      else max (((cstr line).takeWhile (· = 61)).length + (rawDirective line).length + 1 +
          ((afterDirective line).takeWhile valueDelimiter).length + 1)
        (((cstr line).takeWhile (· = 61)).length + (rawDirective line).length + 1 +
          ((afterDirective line).takeWhile valueDelimiter).length +
          ((((afterDirective line).dropWhile valueDelimiter).takeWhile
            fun b => !valueDelimiter b).rdropWhile isSpace).length) := rfl
  have hvalue : NoValue line ↔ ∀ b ∈ afterDirective line, valueDelimiter b = true := by
    simp [NoValue, valueDelimiter]
  have hrdrop : ((rawDirective line).rdropWhile isSpace).length ≤ (rawDirective line).length :=
    (List.rdropWhile_prefix isSpace _).length_le
  rw [hused]
  generalize hskip : ((cstr line).takeWhile (· = 61)).length = skipped at hcut
  generalize rawDirective line = directive at *
  generalize afterDirective line = rest at *
  rw [hline]
  by_cases hm : m ≤ skipped
  · rw [splitLine_of_none (hcut.trans (if_pos hm))]
    refine iff_of_false (by simp) ?_
    split_ifs <;> omega
  · rw [splitLine_of_some (hcut.trans (if_neg hm)), ConfigLine.mk.injEq, Option.some.injEq,
      trimWhiteSpace_take_iff]
    by_cases hv : NoValue line
    · have hnone : nextToken valueDelimiter rest = none := nextToken_eq_none_iff.mpr (hvalue.mp hv)
      have hnone' : ∀ k, nextToken valueDelimiter (rest.take k) = none := fun k =>
        nextToken_eq_none_iff.mpr fun b hb => hvalue.mp hv b (List.mem_of_mem_take hb)
      rw [if_pos hv, hnone, hnone']
      constructor
      · rintro ⟨hlen, -⟩
        omega
      · intro hlen
        exact ⟨by omega, rfl⟩
    · rw [if_neg hv, nextToken_take, nextToken_of_not (fun hall => hv (hvalue.mpr hall))]
      generalize (rest.takeWhile valueDelimiter).length = blanks
      generalize (rest.dropWhile valueDelimiter).takeWhile (fun b => !valueDelimiter b) = value
      rw [Option.map_some, Option.map_some]
      split_ifs with hk
      · refine iff_of_false ?_ (by omega)
        rintro ⟨-, hnone⟩
        cases hnone
      · rw [Option.map_some, Option.some.injEq, trimWhiteSpace_take_iff]
        dsimp only
        constructor
        · rintro ⟨hlen, hlen'⟩
          omega
        · intro hlen
          exact ⟨by omega, by omega⟩

/-- What a pass makes of a piece, by its directive. -/
theorem logEntry_eq (offset : ℕ) (buffer : List UInt8) : logEntry (offset, buffer) =
    if IsLogDirective (directiveOf buffer) then
      some ⟨offset, directiveOf buffer, (splitLine buffer).value⟩
    else none := by
  unfold logEntry
  by_cases hno : NoDirective buffer
  · rw [splitLine_of_noDirective hno, if_neg]
    exact fun h => (directive_of_isLog h).1 hno
  · rw [splitLine_of_directive hno]

/-! ## What the first pass makes of it -/

/-- What an entry does to the settings, if it is accepted. -/
def LogEntry.effect {L : Type} (debugLevelOverride : Bool) (e : LogEntry) (s : Shared L) :
    Shared L :=
  if hasPrefix "log_file" e.directive then { s with logFilePath := e.value }
  else if debugLevelOverride then s
  else { s with debugLevel := toInt (readDecimal (e.value.getD [])).value }

section Logging

variable {L : Type} {build : Build L} {debugLevelOverride : Bool} {p q : LogReader L}

theorem shared_logFile (offset : ℕ) {directive v : List UInt8} {value : Option (List UInt8)}
    (hname : hasPrefix "log_file" directive = true) (hvalue : value = some v)
    (h : (Logging.logFile build).apply v p = .ok q) :
    q.shared = LogEntry.effect debugLevelOverride ⟨offset, directive, value⟩ p.shared := by
  unfold Logging.logFile at h
  dsimp only at h
  split_ifs at h
  obtain rfl := Except.ok.inj h
  unfold LogEntry.effect
  rw [if_pos hname, hvalue]

theorem shared_debugLevel (offset : ℕ) {directive v : List UInt8} {value : Option (List UInt8)}
    (hno : hasPrefix "log_file" directive = false)
    (hvalue : (Logging.debugLevel (L := L) debugLevelOverride).usesValue = true → value = some v)
    (h : (Logging.debugLevel debugLevelOverride).apply v p = .ok q) :
    q.shared = LogEntry.effect debugLevelOverride ⟨offset, directive, value⟩ p.shared := by
  unfold Logging.debugLevel at h
  unfold LogEntry.effect
  dsimp only at h
  rw [hno, if_neg (by decide)]
  cases debugLevelOverride with
  | true =>
      obtain rfl := Except.ok.inj h
      rfl
  | false =>
      rw [hvalue rfl]
      rw [if_neg Bool.false_ne_true] at h ⊢
      split_ifs at h
      obtain rfl := Except.ok.inj h
      rfl

/-- A line that is accepted changes the settings as its entry says. -/
theorem shared_loggingBuffer {buffer : List UInt8}
    (h : loggingBuffer build debugLevelOverride p buffer = .ok q) (offset : ℕ) :
    q.shared = (logEntry (offset, buffer)).elim p.shared
      fun e => e.effect debugLevelOverride p.shared := by
  unfold loggingBuffer loggingLine at h
  unfold logEntry
  cases hsplit : splitLine buffer with
  | mk directive value =>
      rw [hsplit] at h
      cases directive with
      | none => cases h
      | some directive =>
          obtain ⟨r, hfile, hrest⟩ := Machine.foldlM_cons_eq_ok.mp h
          obtain ⟨t, hlevel, hnil⟩ := Machine.foldlM_cons_eq_ok.mp hrest
          obtain rfl := Except.ok.inj hnil
          -- a directive is not one of both
          have hboth : ¬ (hasPrefix "log_file" directive = true ∧
              hasPrefix "debug_level" directive = true) := by
            rintro ⟨hlog, hdebug⟩
            rcases List.prefix_or_prefix_of_prefix (List.isPrefixOf_iff_prefix.mp hlog)
              (List.isPrefixOf_iff_prefix.mp hdebug) with hprefix | hprefix
            · exact absurd hprefix (by decide)
            · exact absurd hprefix (by decide)
          dsimp only
          rcases Directive.run_cases hfile with ⟨hno, rfl⟩ | ⟨hname, v, hvalue, happly⟩
          · have hno' : hasPrefix "log_file" directive = false := hno
            rcases Directive.run_cases hlevel with ⟨hnone, rfl⟩ | ⟨hname, v, hvalue, happly⟩
            · have hnone' : hasPrefix "debug_level" directive = false := hnone
              have hnolog : ¬ IsLogDirective directive := by
                unfold IsLogDirective
                rw [hno', hnone']
                decide
              rw [if_neg hnolog]
              rfl
            · have hlog : IsLogDirective directive := Or.inr hname
              rw [if_pos hlog]
              exact (shared_debugLevel offset hno' hvalue happly :)
          · have hname' : hasPrefix "log_file" directive = true := hname
            have hlog : IsLogDirective directive := Or.inl hname'
            rw [if_pos hlog]
            rcases Directive.run_cases hlevel with ⟨-, rfl⟩ | ⟨hdebug, -⟩
            · exact (shared_logFile offset hname' (hvalue rfl) happly :)
            · exact absurd ⟨hname', hdebug⟩ hboth

/-- **The first pass** changes the settings as the entries say that it sees. -/
theorem shared_initializeLogging {file : List UInt8}
    (h : initializeLogging build debugLevelOverride file p = .ok q) :
    q.shared = (logEntries loggingRoom file).foldl
      (fun s e => e.effect debugLevelOverride s) p.shared := by
  have hpieces : ∀ (pieces : List (ℕ × List UInt8)) (p : LogReader L),
      (pieces.map Prod.snd).foldlM (loggingBuffer build debugLevelOverride) p = .ok q →
        q.shared = (pieces.filterMap logEntry).foldl
          (fun s e => e.effect debugLevelOverride s) p.shared := by
    intro pieces
    induction pieces with
    | nil =>
        intro p hp
        obtain rfl := Except.ok.inj hp
        rfl
    | cons piece pieces ih =>
        intro p hp
        obtain ⟨r, hfirst, hrest⟩ := Machine.foldlM_cons_eq_ok.mp hp
        have hr := shared_loggingBuffer hfirst piece.1
        rw [ih r hrest, hr, List.filterMap_cons]
        cases logEntry piece <;> rfl
  unfold initializeLogging at h
  cases hfold : (buffers loggingRoom file).foldlM (loggingBuffer build debugLevelOverride) p with
  | error halt =>
      rw [hfold] at h
      cases h
  | ok r =>
      rw [hfold] at h
      change (if r.shared.logFilePath = none then Except.error (Halt.exit r.lineCounter
        "log_file directive not found in conf file") else Except.ok r) = Except.ok q at h
      split_ifs at h
      obtain rfl := Except.ok.inj h
      exact hpieces (located loggingRoom file) p hfold

end Logging

theorem offset_of_logEntry {p : ℕ × List UInt8} {e : LogEntry} (h : logEntry p = some e) :
    e.offset = p.1 := by
  rw [logEntry_eq] at h
  split_ifs at h
  rw [← Option.some.inj h]

/-- The end of a longer string is trimmed no further. -/
theorem rdropWhile_prefix_append (front rest : List UInt8) :
    front.rdropWhile isSpace <+: (front ++ rest).rdropWhile isSpace := by
  induction rest using List.reverseRecOn with
  | nil => exact (List.append_nil front).symm ▸ List.prefix_refl _
  | append_singleton rest b ih =>
      rw [← List.append_assoc]
      by_cases hb : isSpace b = true
      · rw [List.rdropWhile_concat_pos _ _ _ hb]
        exact ih
      · rw [List.rdropWhile_concat_neg _ _ _ hb, List.append_assoc]
        exact (List.rdropWhile_prefix isSpace front).trans (List.prefix_append _ _)

/-- A cut line that starts with a directive of the log does so as a whole. -/
theorem isLog_of_take {line : List UInt8} {m : ℕ}
    (h : IsLogDirective (directiveOf (line.take m))) : IsLogDirective (directiveOf line) := by
  have hprefix : directiveOf (line.take m) <+: directiveOf line := by
    unfold directiveOf
    rw [cstr_take, dropWhile_take, ← List.take_takeWhile]
    generalize ((cstr line).dropWhile (· = 61)).takeWhile (· ≠ 61) = raw
    unfold trimWhiteSpace
    rw [dropWhile_take]
    conv_rhs => rw [← List.take_append_drop (m - ((cstr line).takeWhile (· = 61)).length -
      (raw.takeWhile isSpace).length) (raw.dropWhile isSpace)]
    exact rdropWhile_prefix_append _ _
  unfold IsLogDirective hasPrefix at h ⊢
  simp only [List.isPrefixOf_iff_prefix] at h ⊢
  exact h.imp (fun hp => hp.trans hprefix) (fun hp => hp.trans hprefix)

/-- The first piece of a line says the same as the line. -/
theorem logEntry_take_iff (offset : ℕ) (line : List UInt8) (m : ℕ) :
    logEntry (offset, line.take m) = logEntry (offset, line) ↔
      (IsLogDirective (directiveOf line) → usedLength line ≤ m) := by
  by_cases hlog : IsLogDirective (directiveOf line)
  · rw [← splitLine_take_iff hlog]
    constructor
    · intro h _
      rw [logEntry_eq, logEntry_eq, if_pos hlog] at h
      split_ifs at h with hcut
      obtain ⟨-, hdirective, hvalue⟩ := LogEntry.mk.inj (Option.some.inj h)
      rw [splitLine_of_directive (directive_of_isLog hlog).1,
        splitLine_of_directive (directive_of_isLog hcut).1] at hvalue ⊢
      rw [hdirective]
      exact congrArg _ hvalue
    · intro h
      unfold logEntry
      dsimp only
      rw [h hlog]
  · rw [logEntry_eq, logEntry_eq, if_neg hlog, if_neg fun hcut => hlog (isLog_of_take hcut)]
    exact iff_of_true rfl fun h => absurd h hlog

theorem not_isLog_nil : ¬ IsLogDirective (directiveOf []) := by decide

/-- Nothing is found in a line exactly if none of its pieces starts with a
directive of the log. -/
theorem entries_eq_nil_iff {room : ℕ} (hroom : 0 < room) (offset : ℕ) (line : List UInt8)
    (hline : line = [] ∨ IsLine line) :
    (locatedFrom room offset line).filterMap logEntry = [] ↔
      ∀ j, ¬ IsLogDirective (directiveOf ((line.drop (room * j)).take room)) := by
  induction offset, line using fgets_induction hroom with
  | nil offset => simp [not_isLog_nil]
  | cons offset line hne ih =>
      have hl : IsLine line := hline.resolve_left hne
      have hfirst : logEntry (offset, line.take room) = none ↔
          ¬ IsLogDirective (directiveOf ((line.drop (room * 0)).take room)) := by
        rw [logEntry_eq, Nat.mul_zero, List.drop_zero]
        split_ifs with hlog
        · exact ⟨nofun, fun h => absurd hlog h⟩
        · exact ⟨fun _ => hlog, fun _ => rfl⟩
      have hrest : ∀ j, (line.drop (fgets room line).length).drop (room * j) =
          line.drop (room * (j + 1)) := by
        intro j
        rw [List.drop_drop, fgets_eq_take hl]
        by_cases hfits : line.length ≤ room
        · rw [List.take_of_length_le hfits, List.drop_eq_nil_of_le (by omega),
            List.drop_eq_nil_of_le]
          exact hfits.trans (Nat.le_mul_of_pos_right room (Nat.succ_pos j))
        · rw [List.length_take_of_le (by omega)]
          rw [Nat.mul_succ, Nat.add_comm]
      have hdrop : line.drop (fgets room line).length = [] ∨
          IsLine (line.drop (fgets room line).length) := by
        by_cases hlt : (fgets room line).length < line.length
        · exact Or.inr (hl.drop hlt)
        · exact Or.inl (List.drop_eq_nil_of_le (Nat.le_of_not_lt hlt))
      have ih' := ih hdrop
      simp only [hrest] at ih'
      rw [locatedFrom_cons hroom offset hne, fgets_eq_take hl, List.filterMap_cons]
      rw [fgets_eq_take hl] at ih'
      constructor
      · intro h
        cases hentry : logEntry (offset, line.take room) with
        | some e =>
            rw [hentry] at h
            cases h
        | none =>
            rw [hentry] at h
            intro j
            cases j with
            | zero => exact hfirst.mp hentry
            | succ j => exact ih'.mp h j
      · intro h
        rw [hfirst.mpr (h 0)]
        exact ih'.mpr fun j => h (j + 1)

/-- **One line.**  A small buffer finds what the line says exactly if it cuts it
safely. -/
theorem entries_eq_iff {room : ℕ} (hroom : 0 < room) (offset : ℕ) {line : List UInt8}
    (hline : IsLine line) :
    (locatedFrom room offset line).filterMap logEntry = (logEntry (offset, line)).toList ↔
      CutSafely room line := by
  unfold CutSafely
  by_cases hfits : line.length ≤ room
  · rw [locatedFrom_of_fits hroom offset hline hfits]
    refine iff_of_true ?_ (Or.inl hfits)
    rw [List.filterMap_cons, List.filterMap_nil]
    cases logEntry (offset, line) <;> rfl
  · have hlong : room < line.length := Nat.lt_of_not_le hfits
    have hlater := entries_eq_nil_iff hroom (offset + room) (line.drop room)
      (Or.inr (hline.drop hlong))
    have hshift : (∀ j, ¬ IsLogDirective
        (directiveOf (((line.drop room).drop (room * j)).take room))) ↔
          ∀ j, 0 < j → ¬ IsLogDirective (directiveOf ((line.drop (room * j)).take room)) := by
      constructor
      · intro h j hj
        obtain ⟨i, rfl⟩ : ∃ i, j = i + 1 := ⟨j - 1, by omega⟩
        have hi := h i
        rwa [List.drop_drop, Nat.add_comm, ← Nat.mul_succ] at hi
      · intro h j
        rw [List.drop_drop, Nat.add_comm, ← Nat.mul_succ]
        exact h (j + 1) (Nat.succ_pos j)
    have hoffset : ∀ e ∈ (locatedFrom room (offset + room) (line.drop room)).filterMap logEntry,
        offset < e.offset := by
      intro e he
      obtain ⟨p, hp, hentry⟩ := List.mem_filterMap.mp he
      have hle := (offset_of_mem hroom hp).1
      rw [offset_of_logEntry hentry]
      omega
    have hcons : (locatedFrom room offset line).filterMap logEntry =
        (logEntry (offset, line.take room)).toList ++
          (locatedFrom room (offset + room) (line.drop room)).filterMap logEntry := by
      rw [locatedFrom_of_long hroom offset hline hlong, List.filterMap_cons]
      cases logEntry (offset, line.take room) <;> rfl
    rw [hcons, ← hshift, ← hlater, ← logEntry_take_iff offset line room]
    generalize (locatedFrom room (offset + room) (line.drop room)).filterMap logEntry = later
      at hoffset
    constructor
    · intro h
      -- whatever is found later is found elsewhere
      have hnil : later = [] := by
        rw [List.eq_nil_iff_forall_not_mem]
        intro e he
        have hmem : e ∈ (logEntry (offset, line)).toList := h ▸ List.mem_append_right _ he
        have heq := offset_of_logEntry (Option.mem_toList.mp hmem)
        exact absurd (hoffset e he) (by rw [heq]; exact Nat.lt_irrefl _)
      rw [hnil, List.append_nil] at h
      refine Or.inr ⟨hnil, ?_⟩
      have hhead := congrArg List.head? h
      rwa [Option.head?_toList, Option.head?_toList] at hhead
    · rintro (hle | ⟨hnil, heq⟩)
      · exact absurd hle hfits
      · rw [hnil, heq, List.append_nil]

/-! ## Whole files -/

/-- **The two passes.**  In a file whose lines all fit the buffer of
`parse_config_file`, both passes see the same directives of the log at the same
places exactly if `initialize_logging` cuts every line safely. -/
theorem passesAgree_iff {file : List UInt8}
    (hfits : ∀ line ∈ physicalLines file, line.length < 1000) :
    logEntries loggingRoom file = logEntries configRoom file ↔
      ∀ line ∈ physicalLines file, CutSafely loggingRoom line := by
  by_cases hnil : file = []
  · subst hnil
    exact iff_of_true rfl nofun
  have hlogging : 0 < loggingRoom := by decide
  have hconfig : 0 < configRoom := by decide
  have hlen : 0 < file.length := List.length_pos_of_ne_nil hnil
  have hlines : ∀ room, 0 < room → logEntries room file =
      (located file.length file).flatMap fun l =>
        (locatedFrom room l.1 l.2).filterMap logEntry := by
    intro room hroom
    unfold logEntries located
    rw [locatedFrom_eq_flatMap hroom hlen (Nat.le_refl _), List.filterMap_flatMap]
  have hbounds : ∀ room, 0 < room → ∀ l ∈ located file.length file,
      ∀ e ∈ (locatedFrom room l.1 l.2).filterMap logEntry,
        l.1 ≤ e.offset ∧ e.offset < l.1 + l.2.length := by
    intro room hroom l _ e he
    obtain ⟨p, hp, hentry⟩ := List.mem_filterMap.mp he
    obtain ⟨hlo, hhi, hpos⟩ := offset_of_mem hroom hp
    rw [offset_of_logEntry hentry]
    exact ⟨hlo, by omega⟩
  have hpairwise : (located file.length file).Pairwise fun p q => p.1 + p.2.length ≤ q.1 :=
    pairwise_locatedFrom hlen 0 file
  rw [hlines loggingRoom hlogging, hlines configRoom hconfig,
    flatMap_eq_iff hpairwise (hbounds _ hlogging) (hbounds _ hconfig)]
  unfold physicalLines
  rw [List.forall_mem_map]
  refine forall₂_congr fun l hl => ?_
  have hline : IsLine l.2 := isLine_of_mem hlen hl
  have hroom : l.2.length ≤ configRoom := by
    have hlt := hfits l.2 (List.mem_map_of_mem hl)
    exact Nat.le_of_lt_succ hlt
  rw [(entries_eq_iff hconfig l.1 hline).mpr (Or.inl hroom), entries_eq_iff hlogging l.1 hline]

/-- A setting and a long comment behind it, a line that is cut in its white space,
and a comment that is cut twice. -/
def safelyCutFile : List UInt8 :=
  ascii "log_file = /var/log/octopuslb.log" ++ List.replicate 120 32 ++ ascii "\n" ++
    ascii "debug_level = 2\n# " ++ List.replicate 250 45 ++ ascii "\n"

/-- Both passes see the same settings. -/
theorem passesAgree_safelyCut :
    (∀ line ∈ physicalLines safelyCutFile, line.length < 1000) ∧
      (∃ line ∈ physicalLines safelyCutFile, loggingRoom < line.length) ∧
      (logEntries loggingRoom safelyCutFile).length = 2 ∧
      logEntries loggingRoom safelyCutFile = logEntries configRoom safelyCutFile := by
  have hfits : ∀ line ∈ physicalLines safelyCutFile, line.length < 1000 := by decide +kernel
  have hcut : ∀ line ∈ physicalLines safelyCutFile, CutSafely loggingRoom line := by
    decide +kernel
  exact ⟨hfits, by decide +kernel, by decide +kernel, (passesAgree_iff hfits).mpr hcut⟩

/-- A comment that speaks of the log file after 99 characters. -/
def longComment : List UInt8 := List.replicate 99 35 ++ ascii "log_file = /tmp/old.log\n"

theorem passesDisagree_longComment :
    (∀ line ∈ physicalLines longComment, line.length < 1000) ∧
      logEntries loggingRoom longComment ≠ logEntries configRoom longComment := by
  constructor
  · decide +kernel
  · decide +kernel

end OctopusLB
