/-
# The clone mode follows the clones

`set_cloned_state` is called where a clone is enabled or disabled, by the
administrator or by the monitor, but not where it is deleted, nor where a
creation writes over it.  `cloneModeTracks_always_iff`: the clone mode stays
right in exactly the runs in which neither happens to the last enabled clone
while the mode is on.

Whether the mode was turned off on purpose is kept in a ghost beside the state,
which only a clone mode command changes.
-/
import OctopusLB.Control

namespace OctopusLB

open Balancer

variable {L : Type}

/-! ## The property -/

/-- Some clone of the table is enabled. -/
def Balancer.AnyCloneEnabled (b : Balancer L) : Prop :=
  ∃ i < b.nclones, (b.clones i).status = .enabled

/-- The clone mode is what the clones and the last clone mode command make it;
`off` tells whether that command turned cloning off. -/
structure CloneModeTracks (b : Balancer L) (off : Bool) : Prop where
  on : b.cloneMode = .on → b.AnyCloneEnabled
  failed : b.cloneMode = .failed → ¬ b.AnyCloneEnabled
  off_iff : b.cloneMode = .off ↔ off = true

/-- What happens once the configuration has been read. -/
abbrev Operation (L : Type) :=
  { i : ControlInput L // ∀ malloc kind r, i ≠ .section malloc kind r }

/-- Whether cloning is turned off, after a clone mode command that the tool is
allowed to give. -/
def turnedOff (x : Control L) (i : ControlInput L) (off : Bool) : Bool :=
  match i with
  | .command tool (.cloneMode enable) => if (x.tools tool).readonly then off else !enable
  | _ => off

/-- The control machine with the ghost. -/
def cloneModeMachine (L : Type) [LoadArith L] : Machine (Control L × Bool) (Operation L) where
  step s i := (controlStep s.1 i.1).map fun y => (y, turnedOff s.1 i.1 s.2)

/-- No clone is enabled but the one in slot `p`. -/
def OnlyEnabledClone (b : Balancer L) (p : ℕ) : Prop :=
  ∀ i < b.nclones, (b.clones i).status = .enabled → cloneSlot i = p

/-- While the mode is on, the last enabled clone is deleted, or overwritten by
a new server. -/
def DropsLastClone [IntCast L] (x : Control L) (i : ControlInput L) : Prop :=
  x.balancer.cloneMode = .on ∧ ∃ p, OnlyEnabledClone x.balancer p ∧
    ((∃ tool type id, i = .command tool (.delete type id) ∧
        Targets type id x.balancer (x.tools tool) p) ∨
      ∃ malloc kind r, i.creation x = some (malloc, kind, r) ∧ r.Valid malloc ∧
        ¬ PastTables kind x.balancer ∧ p = slot kind (newIndex kind x.balancer))

/-! ## What keeps it -/

/-- The clones of two tables are enabled alike. -/
theorem anyCloneEnabled_congr {b b' : Balancer L} (hn : b'.nclones = b.nclones)
    (hs : ∀ p, (b'.servers p).status = (b.servers p).status) :
    b'.AnyCloneEnabled ↔ b.AnyCloneEnabled := by
  unfold AnyCloneEnabled clones
  rw [hn]
  constructor
  · rintro ⟨i, hi, h⟩
    exact ⟨i, hi, (hs _).symm.trans h⟩
  · rintro ⟨i, hi, h⟩
    exact ⟨i, hi, (hs _).trans h⟩

theorem CloneModeTracks.congr {b b' : Balancer L} {off : Bool} (h : CloneModeTracks b off)
    (hmode : b'.cloneMode = b.cloneMode) (hany : b'.AnyCloneEnabled ↔ b.AnyCloneEnabled) :
    CloneModeTracks b' off := by
  refine ⟨fun hon => ?_, fun hfailed => ?_, ?_⟩
  · exact hany.mpr (h.on (hmode.symm.trans hon))
  · rw [hany]
    exact h.failed (hmode.symm.trans hfailed)
  · rw [hmode]
    exact h.off_iff

/-- **`set_cloned_state`** restores it. -/
theorem cloneModeTracks_setClonedState {b : Balancer L} {off : Bool}
    (h : b.cloneMode = .off ↔ off = true) : CloneModeTracks (setClonedState b) off := by
  have hany : ((List.range b.nclones).any fun i => (b.clones i).status = .enabled) = true ↔
      b.AnyCloneEnabled := by
    simp [List.any_eq_true, Balancer.AnyCloneEnabled]
  have hsame : ∀ mode, ({ b with cloneMode := mode } : Balancer L).AnyCloneEnabled ↔
      b.AnyCloneEnabled := fun _ => Iff.rfl
  unfold setClonedState
  cases hmode : b.cloneMode with
  | off =>
      refine ⟨fun hon => ?_, fun hfailed => ?_, h⟩
      · exact absurd (hmode.symm.trans hon) nofun
      · exact absurd (hmode.symm.trans hfailed) nofun
  | on =>
      have hoff : ¬ off = true := fun ho => absurd (hmode.symm.trans (h.mpr ho)) nofun
      dsimp only
      split_ifs with hsome
      · exact ⟨fun _ => hany.mp hsome, fun hf => absurd (hmode.symm.trans hf) nofun, h⟩
      · exact ⟨nofun, fun _ hno => hsome (hany.mpr hno), ⟨nofun, fun ho => absurd ho hoff⟩⟩
  | failed =>
      have hoff : ¬ off = true := fun ho => absurd (hmode.symm.trans (h.mpr ho)) nofun
      dsimp only
      split_ifs with hsome
      · exact ⟨fun _ => hany.mp hsome, nofun, ⟨nofun, fun ho => absurd ho hoff⟩⟩
      · exact ⟨fun hf => absurd (hmode.symm.trans hf) nofun, fun _ hno => hsome (hany.mpr hno), h⟩

/-- A server that is not enabled is put into slot `p`. -/
structure Puts (p : ℕ) (b b' : Balancer L) : Prop where
  cloneMode : b'.cloneMode = b.cloneMode
  nclones_le : b.nclones ≤ b'.nclones
  new : ∀ i < b'.nclones, b.nclones ≤ i → cloneSlot i = p
  status : (b'.servers p).status ≠ .enabled
  others : ∀ q, q ≠ p → b'.servers q = b.servers q

/-- Clones that are enabled afterwards were so before, elsewhere. -/
theorem Puts.was_enabled {p : ℕ} {b b' : Balancer L} (h : Puts p b b') {i : ℕ}
    (hi : i < b'.nclones) (hs : (b'.clones i).status = .enabled) :
    i < b.nclones ∧ cloneSlot i ≠ p ∧ (b.clones i).status = .enabled := by
  have hne : cloneSlot i ≠ p := fun heq => h.status (heq ▸ hs)
  refine ⟨?_, hne, ?_⟩
  · by_contra hle
    exact hne (h.new i hi (Nat.le_of_not_lt hle))
  · unfold clones at hs ⊢
    rw [← h.others _ hne]
    exact hs

/-- All is well unless the last enabled clone was there. -/
theorem CloneModeTracks.put {b b' : Balancer L} {off : Bool} {p : ℕ} (h : CloneModeTracks b off)
    (hput : Puts p b b') (hlast : ¬ (b.cloneMode = .on ∧ OnlyEnabledClone b p)) :
    CloneModeTracks b' off := by
  refine ⟨fun hon => ?_, fun hfailed => ?_, ?_⟩
  · have hother : ¬ OnlyEnabledClone b p := fun ho => hlast ⟨hput.cloneMode.symm.trans hon, ho⟩
    unfold OnlyEnabledClone at hother
    push Not at hother
    obtain ⟨i, hi, hstatus, hne⟩ := hother
    refine ⟨i, Nat.lt_of_lt_of_le hi hput.nclones_le, ?_⟩
    unfold clones
    rw [hput.others _ hne]
    exact hstatus
  · rintro ⟨i, hi, hstatus⟩
    obtain ⟨hlt, -, hwas⟩ := hput.was_enabled hi hstatus
    exact h.failed (hput.cloneMode.symm.trans hfailed) ⟨i, hlt, hwas⟩
  · rw [hput.cloneMode]
    exact h.off_iff

/-- If it was, the mode is wrong afterwards. -/
theorem Puts.not_tracks {b b' : Balancer L} {off : Bool} {p : ℕ} (hput : Puts p b b')
    (hon : b.cloneMode = .on) (hlast : OnlyEnabledClone b p) : ¬ CloneModeTracks b' off := by
  intro h
  obtain ⟨i, hi, hstatus⟩ := h.on (hput.cloneMode.trans hon)
  obtain ⟨hlt, hne, hwas⟩ := hput.was_enabled hi hstatus
  exact hne (hlast i hlt hwas)

/-! ## The operations -/

/-- A deletion. -/
theorem puts_delete (p : ℕ) (b : Balancer L) :
    Puts p b (b.modifyServer p fun s => { s with status := .deleted }) := by
  refine ⟨rfl, Nat.le_refl _, fun i hi hle => absurd hi (Nat.not_lt.mpr hle), ?_, fun q hq => ?_⟩
  · rw [servers_modifyServer_self]
    nofun
  · exact servers_modifyServer_of_ne b hq _

/-- A creation. -/
theorem puts_create [IntCast L] {kind : ServerKind} {r : CreateRequest L} {b b' : Balancer L}
    (h : Creates kind r b b') (hr : r.serverStatus ≠ .enabled) :
    Puts (slot kind (newIndex kind b)) b b' := by
  refine ⟨h.cloneMode, ?_, fun i hi hle => ?_, ?_, h.others⟩
  · cases kind with
    | member => exact (h.otherCount .clone nofun).ge
    | clone => exact (Nat.le_max_left _ _).trans h.count.ge
  · cases kind with
    | member =>
        have heq : b'.nclones = b.nclones := h.otherCount .clone nofun
        exact absurd hi (by omega)
    | clone =>
        have heq : b'.nclones = max b.nclones (newIndex .clone b + 1) := h.count
        have hindex : newIndex .clone b ≤ b.nclones := newIndex_le .clone b
        have hi' : i = newIndex .clone b := by omega
        rw [hi']
        rfl
  · have hw : (b'.servers (slot kind (newIndex kind b))).status = r.serverStatus :=
      congrArg Server.status h.written
    rw [hw]
    exact hr

/-- `cmd_create` creates disabled servers. -/
theorem status_of_creation {cmd : Command L} {b : Balancer L} {t : AdminTool} {malloc : Bool}
    {kind : ServerKind} {r : CreateRequest L} (h : cmd.creation b t = some (malloc, kind, r)) :
    r.serverStatus = .disabled := by
  cases cmd with
  | create type name ip port malloc' =>
      unfold Command.creation at h
      dsimp only at h
      split_ifs at h
      obtain ⟨⟨kind', r'⟩, hparse, heq⟩ := Option.map_eq_some_iff.mp h
      unfold parseCreate at hparse
      split at hparse
      · split_ifs at hparse
        have hr' := (Prod.mk.inj (Option.some.inj hparse)).2
        have hr := (Prod.mk.inj (Prod.mk.inj heq).2).2
        rw [← hr]
        show r'.serverStatus = .disabled
        rw [← hr']
        rfl
      · cases hparse
  | _ => cases h

/-- A pass of the monitor takes no enabled clone away. -/
theorem anyCloneEnabled_handleDeleteServers [IntCast L] (b : Balancer L) :
    (handleDeleteServers b).AnyCloneEnabled ↔ b.AnyCloneEnabled := by
  have hpass := passed_handleDeleteServers b
  constructor
  · rintro ⟨i, hi, hstatus⟩
    have hlt : i < b.nclones := Nat.lt_of_lt_of_le hi (hpass.count_le .clone)
    refine ⟨i, hlt, ?_⟩
    have hkept : ¬ b.Releases (cloneSlot i) := by
      intro hrel
      unfold clones at hstatus
      rw [hpass.zeroed _ hrel] at hstatus
      cases hstatus
    unfold clones at hstatus ⊢
    rw [← hpass.kept _ hkept]
    exact hstatus
  · rintro ⟨i, hi, hstatus⟩
    have hdrained : ¬ (b.servers (cloneSlot i)).Drained := by
      intro hd
      exact absurd (hstatus.symm.trans hd.1) nofun
    refine ⟨i, hpass.count_lt .clone i hi hdrained, ?_⟩
    unfold clones
    rw [hpass.kept _ fun ⟨_, _, _, _, hd⟩ => hdrained hd]
    exact hstatus

theorem cloneMode_editAll (edit : Server L → Server L) (subjects : List ℕ) (b : Balancer L) :
    (editAll edit subjects b).cloneMode = b.cloneMode := by
  unfold editAll
  induction subjects generalizing b with
  | nil => rfl
  | cons q l ih => exact ih _

/-- Whether cloning is turned off, after a command. -/
theorem turnedOff_command {x : Control L} {tool : ℕ} {cmd : Command L} {off : Bool}
    (h : ∀ enable, cmd ≠ .cloneMode enable) : turnedOff x (.command tool cmd) off = off := by
  cases cmd with
  | cloneMode enable => exact absurd rfl (h enable)
  | _ => rfl

/-- An edit that keeps the status. -/
theorem CloneModeTracks.cmdSingle {type id : List UInt8} {b b' : Balancer L} {t t' : AdminTool}
    {off : Bool} (h : CloneModeTracks b off) (edit : Server L → Server L)
    (hedit : ∀ s, (edit s).status = s.status)
    (hrun : cmdSingle edit type id b t = some (t', b')) : CloneModeTracks b' off := by
  rcases cmdSingle_cases hrun with rfl | ⟨p, -, rfl⟩
  · exact h
  · refine h.congr rfl (anyCloneEnabled_congr rfl fun q => ?_)
    exact servers_modifyServer_eq Server.status b p q edit (hedit _)

/-- An edit of a mode that leaves the clone mode and the clones. -/
theorem CloneModeTracks.modeEdited {edit : Balancer L → Balancer L} {b : Balancer L} {t : AdminTool}
    {off : Bool} (h : CloneModeTracks b off) (hmode : (edit b).cloneMode = b.cloneMode)
    (hclones : (edit b).AnyCloneEnabled ↔ b.AnyCloneEnabled) :
    CloneModeTracks (cmdMode edit b t).2 off := by
  unfold cmdMode
  split_ifs
  · exact h
  · exact h.congr hmode hclones

/-- After an edit of the servers the clone mode is settled anew. -/
theorem CloneModeTracks.serversEdited {b : Balancer L} {off : Bool} (h : CloneModeTracks b off)
    (edit : Server L → Server L) (subjects : List ℕ) :
    CloneModeTracks (setClonedState (editAll edit subjects b)) off := by
  refine cloneModeTracks_setClonedState ?_
  rw [cloneMode_editAll]
  exact h.off_iff

/-- **Commands.**  A command keeps the clone mode right unless it takes the last
enabled clone away. -/
theorem CloneModeTracks.runCommand [IntCast L] {x : Control L} {tool : ℕ} {cmd : Command L}
    {b' : Balancer L} {t' : AdminTool} {off : Bool} (h : CloneModeTracks x.balancer off)
    (hdrop : ¬ DropsLastClone x (.command tool cmd))
    (hover : ¬ Overruns x.balancer (cmd.creation x.balancer (x.tools tool)))
    (hrun : runCommand cmd x.balancer (x.tools tool) = some (t', b')) :
    CloneModeTracks b' (turnedOff x (.command tool cmd) off) := by
  cases cmd with
  | create type name ip port malloc =>
      have hb : (cmdCreate type name ip port malloc x.balancer (x.tools tool)).2 = b' :=
        congrArg Prod.snd (Option.some.inj hrun)
      rcases cmdCreate_cases type name ip port malloc x.balancer (x.tools tool) with
        ⟨kind, r, hc, heq⟩ | ⟨-, heq⟩
      · rw [← hb, heq]
        rcases createBalancerServer_cases malloc kind r x.balancer with
          ⟨-, hsame, -⟩ | ⟨hvalid, -, hcreates⟩
        · rw [hsame]
          exact h
        · have hr : r.serverStatus ≠ .enabled := by
            rw [status_of_creation hc]
            nofun
          have hroom : ¬ PastTables kind x.balancer :=
            fun hpast => hover ⟨malloc, kind, r, hc, hvalid, hpast⟩
          exact h.put (puts_create hcreates hr) fun ⟨hon, hlast⟩ =>
            hdrop ⟨hon, _, hlast, Or.inr ⟨malloc, kind, r, hc, hvalid, hroom, rfl⟩⟩
      · rw [← hb, heq]
        exact h
  | algorithm value =>
      have hb : (cmdMode (fun b => { b with algorithm := value }) x.balancer (x.tools tool)).2 = b' :=
        congrArg Prod.snd (Option.some.inj hrun)
      rw [← hb]
      exact h.modeEdited rfl Iff.rfl
  | overloadMode value =>
      have hb : (cmdMode (fun b => { b with overloadMode := value }) x.balancer
          (x.tools tool)).2 = b' := congrArg Prod.snd (Option.some.inj hrun)
      rw [← hb]
      exact h.modeEdited rfl Iff.rfl
  | cloneMode enable =>
      have hb : (cmdMode (fun b => setClonedState
          { b with cloneMode := if enable then .on else .off }) x.balancer (x.tools tool)).2 = b' :=
        congrArg Prod.snd (Option.some.inj hrun)
      rw [← hb]
      unfold cmdMode turnedOff
      dsimp only
      by_cases hro : (x.tools tool).readonly = true
      · rw [if_pos hro, if_pos hro]
        exact h
      · rw [if_neg hro, if_neg hro]
        refine cloneModeTracks_setClonedState ?_
        cases enable <;> simp
  | standby type id =>
      exact h.cmdSingle (fun s => { s with standbyState := !s.standbyState }) (fun _ => rfl) hrun
  | maxl type id value => exact h.cmdSingle (fun s => { s with maxl := value }) (fun _ => rfl) hrun
  | maxc type id value => exact h.cmdSingle (fun s => { s with maxc := value }) (fun _ => rfl) hrun
  | delete type id =>
      rcases cmdSingle_cases hrun with rfl | ⟨p, htarget, rfl⟩
      · exact h
      · exact h.put (puts_delete p _) fun ⟨hon, hlast⟩ =>
          hdrop ⟨hon, p, hlast, Or.inl ⟨tool, type, id, rfl, htarget⟩⟩
  | enable type id =>
      have hb : (cmdEnable type id x.balancer (x.tools tool)).2 = b' :=
        congrArg Prod.snd (Option.some.inj hrun)
      rw [← hb]
      unfold cmdEnable
      rcases setSubject type id true x.balancer (x.tools tool) with ⟨t₁, _ | l⟩
      · exact h
      · exact h.serversEdited _ _
  | disable type id =>
      have hb : (cmdDisable type id x.balancer (x.tools tool)).2 = b' :=
        congrArg Prod.snd (Option.some.inj hrun)
      rw [← hb]
      unfold cmdDisable
      rcases setSubject type id true x.balancer (x.tools tool) with ⟨t₁, _ | l⟩
      · exact h
      · exact h.serversEdited _ _
  | reset type id =>
      change cmdReset type id x.balancer (x.tools tool) = some (t', b') at hrun
      unfold cmdReset at hrun
      rcases hs : setSubject type id true x.balancer (x.tools tool) with ⟨t₁, _ | l⟩
      · rw [hs] at hrun
        rw [← (Prod.mk.inj (Option.some.inj hrun)).2]
        exact h
      · rw [hs] at hrun
        dsimp only at hrun
        split_ifs at hrun
        rw [← (Prod.mk.inj (Option.some.inj hrun)).2]
        refine h.congr (cloneMode_editAll _ _ _)
          (anyCloneEnabled_congr (editAll_frame _ _ _).2.1 fun p => ?_)
        rw [servers_editAll fun s => (rfl : resetServer (resetServer s) = resetServer s)]
        split_ifs
        · rfl
        · rfl

/-- A step keeps the clone mode right unless it takes the last enabled clone
away. -/
theorem CloneModeTracks.step [LoadArith L] {x y : Control L} {i : ControlInput L} {off : Bool}
    (h : CloneModeTracks x.balancer off) (hop : ∀ malloc kind r, i ≠ .section malloc kind r)
    (hdrop : ¬ DropsLastClone x i) (hstep : (controlMachine L).step x i = some y) :
    CloneModeTracks y.balancer (turnedOff x i off) := by
  have hhash : ∀ b, SameButHash x.balancer b → CloneModeTracks b off := by
    intro b hb
    refine h.congr hb.cloneMode (anyCloneEnabled_congr hb.nclones fun p => ?_)
    rw [hb.servers p]
  cases i with
  | «section» malloc kind r => exact absurd rfl (hop malloc kind r)
  | attach tool readonly =>
      rw [← Option.some.inj hstep]
      exact h
  | command tool cmd =>
      obtain ⟨hover, rfl⟩ := commandStep_of_step hstep
      unfold commandStep
      rcases hrun : OctopusLB.runCommand cmd x.balancer (x.tools tool) with _ | ⟨t, b⟩
      · -- a command that crashes has changed no clone mode
        rw [turnedOff_command fun enable heq => by subst heq; cases hrun]
        exact h
      · exact h.runCommand hdrop hover hrun
  | release =>
      cases control_cases hstep with
      | same => exact h
      | released =>
          exact h.congr (passed_handleDeleteServers _).cloneMode
            (anyCloneEnabled_handleDeleteServers _)
      | created i malloc kind r tools hi => cases hi
  | probe kind j =>
      cases control_cases hstep with
      | same => exact h
      | probing => exact h
      | created i malloc kind r tools hi => cases hi
  | verdict verdict =>
      cases control_cases hstep with
      | same => exact h
      | judged verdict p hp =>
          show CloneModeTracks (finishProbe p verdict x.balancer) off
          cases verdict with
          | none => exact h
          | some alive => exact cloneModeTracks_setClonedState h.off_iff
      | created i malloc kind r tools hi => cases hi
  | rebalance q threshold size =>
      cases control_cases hstep with
      | same => exact h
      | rebalanced => exact hhash _ (sameButHash_rebalanceHash q threshold size x.balancer)
      | created i malloc kind r tools hi => cases hi
  | request buf =>
      cases control_cases hstep with
      | same => exact h
      | chosen buf chooser status hc => exact hhash _ (sameButHash_chooseCandidate hc)
      | created i malloc kind r tools hi => cases hi
  | connections p c =>
      rw [← Option.some.inj hstep]
      refine h.congr rfl (anyCloneEnabled_congr rfl fun q => ?_)
      exact setConnections_field Server.status (fun _ _ => rfl) p c x.balancer q

/-- A step that takes it away leaves the clone mode wrong. -/
theorem exists_step_of_drops [LoadArith L] {x : Control L} {i : ControlInput L}
    (hop : ∀ malloc kind r, i ≠ .section malloc kind r) (h : DropsLastClone x i) :
    ∃ y, (controlMachine L).step x i = some y ∧ ∀ off, ¬ CloneModeTracks y.balancer off := by
  obtain ⟨hon, p, hlast, ⟨tool, type, id, rfl, htarget⟩ | ⟨malloc, kind, r, hc, hvalid, hroom, rfl⟩⟩ := h
  · obtain ⟨y, hy, hb⟩ := exists_step_of_delete htarget
    refine ⟨y, hy, fun off => ?_⟩
    rw [hb]
    exact (puts_delete p _).not_tracks hon hlast
  · obtain ⟨y, hy, hb⟩ := exists_step_of_creation hc fun _ => hroom
    refine ⟨y, hy, fun off => ?_⟩
    rw [hb]
    rcases createBalancerServer_cases malloc kind r x.balancer with
      ⟨hinvalid, -⟩ | ⟨-, -, hcreates⟩
    · exact absurd hvalid hinvalid
    · have hr : r.serverStatus ≠ .enabled := by
        cases i with
        | «section» malloc kind r => exact absurd rfl (hop malloc kind r)
        | command tool cmd =>
            rw [status_of_creation hc]
            nofun
        | _ => cases hc
      exact (puts_create hcreates hr).not_tracks hon hlast

/-- **Clone mode.**  Started right, the clone mode is right in every state of a
run exactly if no step of the run takes the last enabled clone away while the
mode is on. -/
theorem cloneModeTracks_always_iff [LoadArith L] {x : Control L} {off : Bool}
    (h : CloneModeTracks x.balancer off) (inputs : List (Operation L)) :
    (∀ s ∈ (cloneModeMachine L).states (x, off) inputs, CloneModeTracks s.1.balancer s.2) ↔
      ∀ v ∈ (cloneModeMachine L).visits (x, off) inputs, ¬ DropsLastClone v.1.1 v.2.1 := by
  refine (cloneModeMachine L).always_iff (fun _ => True)
    (fun s => CloneModeTracks s.1.balancer s.2) (fun s i => DropsLastClone s.1 i.1)
    (fun _ _ _ _ _ => trivial) (fun s i t _ hs hgood hstep => ?_) (fun s i _ _ hbad => ?_)
    trivial h inputs
  · obtain ⟨y, hy, rfl⟩ := Option.map_eq_some_iff.mp hstep
    exact hs.step i.2 hgood hy
  · obtain ⟨y, hy, hno⟩ := exists_step_of_drops i.2 hbad
    exact ⟨_, Option.map_eq_some_iff.mpr ⟨y, hy, rfl⟩, hno _⟩

/-- A command of the first admin process. -/
def commandOperation (cmd : Command L) : Operation L := ⟨.command 0 cmd, nofun⟩

/-- A clone is created and enabled, and cloning turned on. -/
def cloneInUse : List (Operation ℤ) :=
  [commandOperation (.create [99] [97] (some 1) 80 true), commandOperation (.enable [99] [48]),
    commandOperation (.cloneMode true)]

theorem tracks_sampleControl : CloneModeTracks sampleControl.balancer true :=
  ⟨nofun, nofun, ⟨fun _ => rfl, fun _ => rfl⟩⟩

/-- Nothing is deleted, and nothing created once the mode is on. -/
theorem cloneModeTracks_cloneInUse :
    CloneModeTracks sampleControl.balancer true ∧
      ∀ s ∈ (cloneModeMachine ℤ).states (sampleControl, true) cloneInUse,
        CloneModeTracks s.1.balancer s.2 := by
  refine ⟨tracks_sampleControl, (cloneModeTracks_always_iff tracks_sampleControl _).mpr ?_⟩
  intro v hv
  rcases (cloneModeMachine ℤ).eq_or_mem_of_mem_visits hv with rfl | hv
  · rintro ⟨hon, -⟩
    cases hon
  · rintro ⟨-, p, -, ⟨tool, type, id, hi, -⟩ | ⟨malloc, kind, r, hi, -⟩⟩
    · rcases List.mem_pair.mp hv with heq | heq
      · rw [heq] at hi
        cases hi
      · rw [heq] at hi
        cases hi
    · rcases List.mem_pair.mp hv with heq | heq
      · rw [heq] at hi
        cases hi
      · rw [heq] at hi
        cases hi

/-- The only clone is deleted, and the mode stays on. -/
theorem mode_on_without_clones :
    CloneModeTracks sampleControl.balancer true ∧
      ¬ ∀ s ∈ (cloneModeMachine ℤ).states (sampleControl, true)
          (cloneInUse ++ [commandOperation (.delete [99] [48])]),
        CloneModeTracks s.1.balancer s.2 := by
  refine ⟨tracks_sampleControl, fun hall => ?_⟩
  have hrun : ((cloneModeMachine ℤ).run (sampleControl, true)
      (cloneInUse ++ [commandOperation (.delete [99] [48])])).any (fun s =>
        decide (s.1.balancer.cloneMode = .on ∧ s.1.balancer.nclones = 1 ∧
          (s.1.balancer.clones 0).status = .deleted)) = true := by decide +kernel
  obtain ⟨s, hs, hcond⟩ := (Option.any_eq_true _ _).mp hrun
  obtain ⟨hon, hcount, hdeleted⟩ := of_decide_eq_true hcond
  obtain ⟨i, hi, hstatus⟩ := (hall s ((cloneModeMachine ℤ).mem_states_of_run hs)).on hon
  obtain rfl : i = 0 := by omega
  exact absurd (hdeleted.symm.trans hstatus) nofun

end OctopusLB
