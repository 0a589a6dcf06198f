/-
# Which descriptors are registered

A descriptor that is closed, or that a session holds without being connected, is
not registered with epoll (`World.Registered`).  So an event of a registered
descriptor never hits a leftover.
-/
import OctopusLB.Service

namespace OctopusLB

variable {n : ℕ} {L : Type}

/-- The event is of a descriptor that is registered with epoll. -/
def ServiceInput.Delivered (x : Service n L) : ServiceInput n L → Prop
  | .event e _ => (x.world.sys.interest e.fd).isSome = true
  | .other _ _ => True

instance (x : Service n L) (i : ServiceInput n L) : Decidable (i.Delivered x) :=
  match i with
  | .event e _ => inferInstanceAs (Decidable ((x.world.sys.interest e.fd).isSome = true))
  | .other _ _ => instDecidableTrue

/-! ## Through the moves of a session -/

/-- Neither a closed descriptor nor one that the session holds without being
connected is registered. -/
structure Ctx.Registered (x : Ctx n L) : Prop where
  closed : ∀ fd, x.sys.isOpen fd = false → x.sys.interest fd = none
  leftover : ∀ kind fd, x.session.serverfd kind = some fd → x.session.connected kind = false →
    x.sys.interest fd = none

namespace Ctx.Registered

variable {x y : Ctx n L}

/-- What a session holds without being connected it held so before. -/
def Lets (x y : Ctx n L) : Prop :=
  ∀ kind fd, y.session.serverfd kind = some fd → y.session.connected kind = false →
    x.session.serverfd kind = some fd ∧ x.session.connected kind = false

/-- Nothing is closed, and nothing else is registered. -/
theorem of_same (h : x.Registered) (hheld : Lets x y)
    (hinterest : ∀ fd, (y.sys.interest fd).isSome = (x.sys.interest fd).isSome)
    (hopen : ∀ fd, y.sys.isOpen fd = false → x.sys.isOpen fd = false) : y.Registered := by
  have hnone : ∀ fd, x.sys.interest fd = none → y.sys.interest fd = none := by
    intro fd hx
    have hsame := hinterest fd
    rw [hx] at hsame
    exact Option.not_isSome_iff_eq_none.mp (by rw [hsame]; nofun)
  refine ⟨fun fd hfd => hnone fd (h.closed fd (hopen fd hfd)), fun kind fd hfd hc => ?_⟩
  obtain ⟨hx, hnot⟩ := hheld kind fd hfd hc
  exact hnone fd (h.leftover kind fd hx hnot)

/-- A descriptor is closed. -/
theorem close (h : x.Registered) (hheld : Lets x y) {fd : Fd}
    (hopen : y.sys.isOpen = Function.update x.sys.isOpen fd false)
    (hinterest : y.sys.interest = Function.update x.sys.interest fd none) : y.Registered := by
  have hnone : ∀ fd', fd' = fd ∨ x.sys.interest fd' = none → y.sys.interest fd' = none := by
    intro fd' hor
    rw [hinterest]
    by_cases heq : fd' = fd
    · rw [heq, Function.update_self]
    · rw [Function.update_of_ne heq]
      exact hor.resolve_left heq
  refine ⟨fun fd' hfd => hnone fd' ?_, fun kind fd' hfd hc => ?_⟩
  · by_cases heq : fd' = fd
    · exact Or.inl heq
    · rw [hopen, Function.update_of_ne heq] at hfd
      exact Or.inr (h.closed fd' hfd)
  · obtain ⟨hx, hnot⟩ := hheld kind fd' hfd hc
    exact hnone fd' (Or.inr (h.leftover kind fd' hx hnot))

/-- An open descriptor is registered; it is none of the leftovers. -/
theorem register (h : x.Registered) (hheld : Lets x y) {fd : Fd} (hfd : x.sys.isOpen fd = true)
    (hopen : y.sys.isOpen = x.sys.isOpen)
    (hinterest : y.sys.interest = Function.update x.sys.interest fd (some .ro))
    (hnot : ∀ kind, y.session.serverfd kind = some fd → y.session.connected kind = true) :
    y.Registered where
  closed := by
    intro fd' hclosed
    rw [hopen] at hclosed
    have hne : fd' ≠ fd := by
      rintro rfl
      exact absurd (hfd.symm.trans hclosed) nofun
    rw [hinterest, Function.update_of_ne hne]
    exact h.closed fd' hclosed
  leftover := by
    intro kind fd' hfd' hc
    have hne : fd' ≠ fd := by
      rintro rfl
      exact absurd ((hnot kind hfd').symm.trans hc) nofun
    rw [hinterest, Function.update_of_ne hne]
    obtain ⟨hx, hxc⟩ := hheld kind fd' hfd' hc
    exact h.leftover kind fd' hx hxc

end Ctx.Registered

open Ctx.Registered

/-- Opening a descriptor closes none. -/
theorem closed_of_opened {y : Sys n L} {fd fd' : Fd} (h : (y.opened fd).isOpen fd' = false) :
    y.isOpen fd' = false := by
  by_contra hopen
  have ho : (y.opened fd).isOpen fd' = true :=
    Sys.isOpen_opened.mpr (Or.inr (Bool.eq_true_of_not_eq_false hopen))
  exact absurd (ho.symm.trans h) nofun

section Moves

variable [LoadArith L] {slots : ServerKind → ℕ → Prop} {x y : Ctx n L}

/-- **One move** registers no leftover, and leaves none that is registered. -/
theorem registered_move (hok : x.session.Ok) (how : x.Owns) (h : Move (fun _ => False) slots x y)
    (hx : x.Registered) : y.Registered := by
  cases h with
  | quiet hq =>
      refine hx.of_same (fun kind fd hfd hc => ?_) hq.registered fun fd hfd => ?_
      · rw [Session.serverfd_eq_fdOf, hq.links.fdOf, ← Session.serverfd_eq_fdOf] at hfd
        exact ⟨hfd, (hq.links.connected kind).symm.trans hc⟩
      · rwa [hq.isOpen] at hfd
  | dropClient =>
      cases hfd : x.session.clientfd with
      | none =>
          unfold disconnectClient
          rw [hfd]
          exact hx
      | some fd =>
          unfold disconnectClient
          rw [hfd]
          exact hx.close (fun kind fd' hr hc => by cases kind <;> exact ⟨hr, hc⟩) rfl rfl
  | dropServer kind hc =>
      obtain ⟨fd, hfd⟩ := Option.ne_none_iff_exists'.mp (hok.connected_fd kind (hc.resolve_right id))
      refine hx.close (fun kind' fd' hr hnot => ?_)
        (?_ : _ = Function.update x.sys.isOpen fd false) ?_
      · rw [connected_disconnectServer hok] at hnot
        rw [session_disconnectServer, hfd, Option.isSome_some, if_pos rfl] at hr
        by_cases hk : kind' = kind
        · subst hk
          cases kind' <;> cases hr
        · rw [if_neg hk] at hnot
          exact ⟨(sameSide_clearServer hk _).serverfd.symm.trans hr, hnot⟩
      · unfold disconnectServer
        rw [hfd]
        exact congrArg (Function.update · fd false) (Sys.isOpen_modifyServer ..)
      · unfold disconnectServer
        rw [hfd]
        exact congrArg (Function.update · fd none) (Sys.interest_modifyServer ..)
  | release reason before hclient hservers =>
      refine hx.of_same (fun kind fd hfd hc => ⟨?_, hservers kind⟩) (fun _ => rfl) fun _ => id
      cases kind <;> exact hfd
  | handOut fd hfd hclient =>
      refine hx.of_same (fun kind fd' hr hc => ?_) (fun _ => rfl) fun fd' => closed_of_opened
      cases kind <;> exact ⟨hr, hc⟩
  | register fd hfd =>
      refine hx.register (fun kind fd' hr hc => ⟨hr, hc⟩) (how .client fd hfd).2 rfl rfl ?_
      intro kind hr
      rw [Ctx.session_updateSys, Session.serverfd_eq_fdOf] at hr
      -- the client descriptor is no server descriptor
      have hrole := hok.distinct .client kind.role fd hfd hr
      cases kind <;> cases hrole
  | choose c code hc => exact hx.of_same (fun _ _ hr hc => ⟨hr, hc⟩) (fun _ => rfl) fun _ => id
  | chose status => exact hx.of_same (fun _ _ hr hc => ⟨hr, hc⟩) (fun _ => rfl) fun _ => id
  | leak fd hfd =>
      exact hx.of_same (fun _ _ hr hc => ⟨hr, hc⟩) (fun _ => rfl) fun fd' => closed_of_opened
  | associate kind fd slot hfd hnone hslot =>
      -- the descriptor was closed so far
      refine ⟨fun fd' hclosed => hx.closed fd' (closed_of_opened hclosed), fun kind' fd' hr hc => ?_⟩
      show x.sys.interest fd' = none
      by_cases hk : kind' = kind
      · subst hk
        have heq : fd = fd' := by
          cases kind' <;> exact Option.some.inj hr
        exact heq ▸ hx.closed fd hfd
      · have hside := sameSide_setServer hk x.session fd slot
        exact hx.leftover kind' fd' (hside.serverfd.symm.trans hr) (hside.connected.symm.trans hc)
  | establish kind fd slot hfd hserver hnot hslot =>
      have hrole := hfd
      rw [Session.serverfd_eq_fdOf] at hrole
      refine hx.register (fun kind' fd' hr hc => ?_) (how kind.role fd hrole).2 rfl rfl ?_
      · cases kind <;> cases kind' <;> first | cases hc | exact ⟨hr, hc⟩
      · intro kind' hr
        have hr' : x.session.fdOf kind'.role = some fd := by
          rw [← Session.serverfd_eq_fdOf, ← hr]
          cases kind <;> cases kind' <;> rfl
        have hsame := hok.distinct kind.role kind'.role fd hrole hr'
        obtain rfl : kind' = kind := by
          by_contra hk
          exact ServerKind.role_ne hk hsame.symm
        cases kind' <;> rfl

/-- A chain of moves keeps this. -/
theorem registered_moves (hok : x.session.Ok) (how : x.Owns)
    (h : Moves (fun _ => False) slots x y) (hx : x.Registered) : y.Registered := by
  induction h with
  | refl => exact hx
  | tail hu hmove ih =>
      -- registrations in between only concern what the session owns
      obtain ⟨huok, huow⟩ := (frame_moves hu).sound hok how
      exact registered_move huok huow hmove ih

end Moves

/-! ## In all states of the service -/

/-- Neither a closed descriptor nor a leftover is registered. -/
structure World.Registered (w : World n L) : Prop where
  closed : ∀ fd, w.sys.isOpen fd = false → w.sys.interest fd = none
  leftover : ∀ s fd, w.Leftover s fd → w.sys.interest fd = none

namespace World.Registered

variable {w : World n L}

theorem ctx (h : w.Registered) (s : Fin n) : (w.ctx s).Registered :=
  ⟨h.closed, fun kind fd hfd hc => h.leftover s fd ⟨kind, hfd, hc⟩⟩

theorem start (h : w.Start) : w.Registered where
  closed := by
    intro fd hclosed
    have hne : fd ≠ w.listenerfd := by
      rintro rfl
      exact absurd (h.listening.symm.trans hclosed) nofun
    rw [h.interest, if_neg hne]
  leftover := by
    rintro s fd ⟨kind, hfd, -⟩
    rw [h.sessions] at hfd
    cases kind <;> cases hfd

variable [LoadArith L]

/-- One session changes. -/
theorem put (h : w.Registered) (how : w.Owned) {s : Fin n} {slots : ServerKind → ℕ → Prop}
    {y : Ctx n L} (hmoves : Moves (fun _ => False) slots (w.ctx s) y) : (w.put y).Registered := by
  have hframe := frame_moves hmoves
  have hsid : y.sid = s := hframe.sid
  have hy := registered_moves (how.ok s) (how.owns s) hmoves (h.ctx s)
  refine ⟨hy.closed, ?_⟩
  rintro t fd ⟨kind, hfd, hc⟩
  by_cases hts : t = s
  · rw [World.sessions_put_of_sid _ (hsid.trans hts.symm)] at hfd hc
    exact hy.leftover kind fd hfd hc
  · rw [World.sessions_put_of_ne _ (hsid.symm ▸ hts)] at hfd hc
    -- the session changed holds none of the others' descriptors
    have hrole := hfd
    rw [Session.serverfd_eq_fdOf] at hrole
    obtain ⟨-, hopen⟩ := how.owns t kind.role fd hrole
    obtain ⟨-, -, hsame⟩ := hframe.others fd hopen fun role => how.not_held hts hrole
    exact hsame.trans (h.leftover t fd ⟨kind, hfd, hc⟩)

/-- **Events of registered descriptors** keep this. -/
theorem event (h : w.Registered) (how : w.Owned) {e : Event} {env : EventEnv n} {w' : World n L}
    (hd : (w.sys.interest e.fd).isSome = true) (hstep : processEvent e env w = some w') :
    w'.Registered := by
  have hleft : ∀ s, w.sys.fds e.fd = some s → ¬ w.Leftover s e.fd := by
    intro s _ hl
    rw [h.leftover s e.fd hl] at hd
    cases hd
  cases turn_of_event how hleft hstep with
  | quiet hs hh hc hopen hinterest =>
      refine ⟨fun fd hfd => hinterest fd (h.closed fd (hopen fd hfd)), ?_⟩
      rintro s fd ⟨kind, hfd, hnot⟩
      rw [hs] at hfd hnot
      exact hinterest fd (h.leftover s fd ⟨kind, hfd, hnot⟩)
  | served s y hmoves => exact h.put how hmoves
  | accepted s y fd env' hin hmoves hy => exact h.put how hmoves

end World.Registered

/-- **An event of a registered descriptor** hits no leftover. -/
theorem not_hitsLeftover {x : Service n L} (h : x.world.Registered) {i : ServiceInput n L}
    (hd : i.Delivered x) : ¬ i.HitsLeftover x := by
  cases i with
  | event e env =>
      rintro ⟨s, -, hleft⟩
      change (x.world.sys.interest e.fd).isSome = true at hd
      rw [h.leftover s e.fd hleft] at hd
      cases hd
  | other i hi => exact id

end OctopusLB
