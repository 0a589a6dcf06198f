/-
# Events of one batch

The events that one `epoll_wait` returns are processed one after the other, and
processing one may close a descriptor that a later one was reported for.  The
main loop takes such a stale event for harmless because it compares descriptor
numbers; that comparison is no help once the number is in use again.

`batchMachine` is the main loop with a note on every pending event: whose
descriptor it was reported for, and whether that session has given it up since.
`ownEvents_always_iff` says exactly when events go astray.
-/
import OctopusLB.SessionReuse

namespace OctopusLB

variable {n : ℕ} {L : Type}

/-! ## Reported events -/

/-- A pending event, the session and the role that its descriptor belonged to
when it was reported, and whether the session has given the descriptor up
since. -/
structure Report (n : ℕ) where
  event : Event
  owner : Option (Fin n × Role)
  givenUp : Bool

/-- The role that a descriptor has in the session that `fds` has for it. -/
def World.ownerOf (w : World n L) (fd : Fd) : Option (Fin n × Role) :=
  (w.sys.fds fd).bind fun s => ((w.sessions s).roleOf fd).map fun role => (s, role)

/-- The note on an event that has just been reported. -/
def World.report (w : World n L) (e : Event) : Report n := ⟨e, w.ownerOf e.fd, false⟩

/-- The owner no longer has the descriptor. -/
def Report.lost (r : Report n) (w : World n L) : Bool :=
  match r.owner with
  | some (s, role) => decide ((w.sessions s).fdOf role ≠ some r.event.fd)
  | none => false

/-- Look whether the owner has given the descriptor up. -/
def Report.recheck (w : World n L) (r : Report n) : Report n :=
  { r with givenUp := r.givenUp || r.lost w }

/-- The main loop with the notes on its pending events. -/
structure Batch (n : ℕ) (L : Type) where
  world : World n L
  pending : List (Report n)

/-- Without the notes. -/
def Batch.erase (b : Batch n L) : MainLoop n L := ⟨b.world, b.pending.map Report.event⟩

/-- The main loop that keeps the notes. -/
def batchMachine (n : ℕ) (L : Type) [LoadArith L] : Machine (Batch n L) (LoopInput n L) where
  step b i :=
    match i, b.pending with
    | .poll events, [] => some { b with pending := (b.world.reported events).map b.world.report }
    | .poll _, _ :: _ => none
    | .process env, r :: rs =>
        (processEvent r.event env b.world).map fun w => ⟨w, rs.map (Report.recheck w)⟩
    | .process _, [] => none
    | .share balancer, _ => some { b with world := b.world.share balancer }

section Erase

variable [LoadArith L] {b b' : Batch n L} {i : LoopInput n L}

/-- **The notes change nothing**: `batchMachine` is the main loop. -/
theorem erase_batchMachine (b : Batch n L) (i : LoopInput n L) :
    (loopMachine n L).step b.erase i = ((batchMachine n L).step b i).map Batch.erase := by
  have hrecheck : ∀ (w : World n L) (rs : List (Report n)),
      (rs.map (Report.recheck w)).map Report.event = rs.map Report.event := by
    intro w rs
    rw [List.map_map]
    rfl
  have hreport : ∀ (w : World n L) (es : List Event),
      (es.map w.report).map Report.event = es := by
    intro w es
    rw [List.map_map]
    exact List.map_id es
  obtain ⟨w, pending⟩ := b
  cases i with
  | poll events =>
      cases pending with
      | nil =>
          show some _ = some _
          rw [Option.some.injEq]
          exact congrArg (MainLoop.mk w) (hreport w _).symm
      | cons r rs => rfl
  | process env =>
      cases pending with
      | nil => rfl
      | cons r rs =>
          show (processEvent r.event env w).map _ = ((processEvent r.event env w).map _).map _
          rw [Option.map_map]
          congr 1
          funext w'
          exact congrArg (MainLoop.mk w') (hrecheck w' rs).symm
  | share balancer => rfl

theorem erase_step (h : (batchMachine n L).step b i = some b') :
    (loopMachine n L).step b.erase i = some b'.erase := by
  rw [erase_batchMachine, h]
  rfl

end Erase

/-! ## Where events go -/

/-- A session and its descriptors are as before. -/
structure SameSession (w w' : World n L) (s : Fin n) : Prop where
  session : w'.sessions s = w.sessions s
  history : w'.histories s = w.histories s
  fds : ∀ role fd, (w.sessions s).fdOf role = some fd →
    w'.sys.isOpen fd = w.sys.isOpen fd ∧ w'.sys.interest fd = w.sys.interest fd ∧
      w'.sys.fds fd = w.sys.fds fd

theorem SameSession.refl (w : World n L) (s : Fin n) : SameSession w w s :=
  ⟨rfl, rfl, fun _ _ _ => ⟨rfl, rfl, rfl⟩⟩

/-- The next event goes to the session that it was reported for, and to none if
that session has given the descriptor up. -/
def OwnEvent [LoadArith L] (b : Batch n L) (i : LoopInput n L) : Prop :=
  ∀ env r rs s role, i = .process env → b.pending = r :: rs → r.owner = some (s, role) →
    ∃ w, processEvent r.event env b.world = some w ∧
      (r.givenUp = false → ∀ t, t ≠ s → SameSession b.world w t) ∧
      (r.givenUp = true → ∀ t, SameSession b.world w t)

/-- The event says something. -/
def Event.Signals (e : Event) : Prop :=
  e.err = true ∨ e.hup = true ∨ e.input = true ∨ e.output = true

/-- The descriptor of the next event has been given up by the session that the
event was reported for, and by now `fds` has no session for it, or has one that
holds it. -/
def HitsReused (b : Batch n L) (i : LoopInput n L) : Prop :=
  ∃ env r rs, i = .process env ∧ b.pending = r :: rs ∧ r.owner ≠ none ∧ r.givenUp = true ∧
    (b.world.sys.fds r.event.fd = none ∨
      (b.world.ownerOf r.event.fd ≠ none ∧ r.event.Signals))

/-! ## What an event leaves behind -/

section Traces

variable {x y : Ctx n L}

/-- A call that leaves no trace in the history gives the descriptor up. -/
theorem trace_of_effect {call : Call} (he : Effect x call y) :
    x.history.length < y.history.length ∨
      (y.history = x.history ∧ y.session.fdOf call.role = none) := by
  have hdelete : ∀ {z : Ctx n L} (reason : Reason), x.history.length ≤ z.history.length →
      x.history.length < (deleteSession reason z).history.length := by
    intro z reason hle
    rw [history_deleteSession, List.length_cons]
    omega
  cases he with
  | clientEof => exact Or.inl (hdelete _ (Nat.le_refl _))
  | clientGone => exact Or.inl (hdelete _ (Nat.le_refl _))
  | memberGone => exact Or.inl (hdelete _ (Nat.le_refl _))
  | delivered => exact Or.inl (hdelete _ (Nat.le_succ _))
  | fromClient fd r env bytes hr hne =>
      left
      rw [history_forwardClientRead]
      exact Nat.lt_succ_self _
  | toClient => exact Or.inl (Nat.lt_succ_self _)
  | fromMember => exact Or.inl (Nat.lt_succ_self _)
  | toMember => exact Or.inl (Nat.lt_succ_self _)
  | fromClone => exact Or.inl (Nat.lt_succ_self _)
  | toClone => exact Or.inl (Nat.lt_succ_self _)
  | disconnected call kind hrole =>
      right
      refine ⟨history_disconnectServer x kind, ?_⟩
      rw [hrole, ← Session.serverfd_eq_fdOf, serverfd_disconnectServer, if_pos rfl]

/-- A call shortens no history. -/
theorem history_le_of_effect {call : Call} (he : Effect x call y) :
    x.history.length ≤ y.history.length := by
  obtain ⟨hs, -, heq | ⟨⟨reason, before, heq⟩, -⟩⟩ := history_effect he
  · rw [heq, List.length_append]
    omega
  · rw [heq, List.length_cons, List.length_append]
    omega

/-- A write handler takes up no descriptor. -/
theorem fdOf_none_of_write (hok : x.session.Ok) {role role' : Role} {fd : Fd} {w : WriteOutcome}
    (he : Effect x (.write role fd w) y) (h : x.session.fdOf role' = none) :
    y.session.fdOf role' = none := by
  have hdelete : ∀ {z : Ctx n L} (reason : Reason), z.session.Ok → z.session.fdOf role' = none →
      (deleteSession reason z).session.fdOf role' = none := by
    intro z reason hz hnone
    rcases fdOf_deleteSession hz reason role' with hfd | hfd
    · exact hfd
    · exact hfd.trans hnone
  have hquiet : ∀ {z : Ctx n L}, Quiet x z → z.session.fdOf role' = none := by
    intro z hz
    rw [hz.links.fdOf]
    exact h
  cases he with
  | clientGone => exact hdelete _ hok h
  | delivered fd w hw hm =>
      have hsent := quiet_sendToClient x x.session.memberUsedBuffer
      exact hdelete _ (hsent.ok hok) (hquiet hsent)
  | toClient fd w k hw hm =>
      exact hquiet (((quiet_sendToClient x k).trans (quiet_freeMember _)).trans
        (quiet_maintainClientWrite _))
  | toMember fd w k hw =>
      exact hquiet ((quiet_sendToMember x k).trans (quiet_maintainMemberWrite _))
  | toClone fd w k hw => exact hquiet ((quiet_sendToClone x k).trans (quiet_watch _ .clone _))
  | disconnected _ kind hrole =>
      have hserver : (disconnectServer kind x).session.fdOf role' = none ∨
          (disconnectServer kind x).session.fdOf role' = x.session.fdOf role' := by
        rw [session_disconnectServer]
        split_ifs
        · cases kind <;> cases role' <;> first | exact Or.inl rfl | exact Or.inr rfl
        · exact Or.inr rfl
      rcases hserver with hfd | hfd
      · exact hfd
      · exact hfd.trans h

variable [LoadArith L]

/-- Without `STATE_FRESH` no call fails. -/
theorem exists_handle (hok : x.session.Ok) (call : Call) : ∃ y, handle call x = some y := by
  rcases call with ⟨role, fd, r, env⟩ | ⟨role, fd, w⟩ | ⟨role, fd, err⟩ <;> cases role
  · exact ⟨_, clientRead_of_not_fresh hok.fresh fd r env⟩
  all_goals exact ⟨_, rfl⟩

theorem exists_serve (hok : x.session.Ok) (e : Event) (env : EventEnv n) :
    ∃ y, serve e env x = some y := by
  unfold serve
  cases x.session.roleOf e.fd with
  | none => exact ⟨x, rfl⟩
  | some role =>
      dsimp only
      unfold serveRole
      split_ifs
      · exact exists_handle hok _
      · exact exists_handle hok _
      · obtain ⟨z, hz⟩ := exists_handle hok (.read role e.fd env.read env.connect)
        rw [hz, Option.bind_some]
        exact exists_handle (ok_handle hok hz) _
      · obtain ⟨z, hz⟩ := exists_handle hok (.read role e.fd env.read env.connect)
        exact ⟨z, by rw [hz]; rfl⟩
      · exact exists_handle hok _
      · exact ⟨x, rfl⟩

/-- **An event that reaches a session shows**: in its history, or because the
session has given the descriptor up. -/
theorem trace_of_serve (hok : x.session.Ok) {e : Event} {env : EventEnv n} {role : Role}
    (hrole : x.session.roleOf e.fd = some role) (hsignals : e.Signals)
    (hy : serve e env x = some y) :
    x.history.length < y.history.length ∨ y.session.fdOf role = none := by
  unfold serve at hy
  rw [hrole] at hy
  have hcall : ∀ {call : Call} {v : Ctx n L}, call.role = role → handle call x = some v →
      x.history.length < v.history.length ∨ v.session.fdOf role = none := by
    intro call v hcallrole hv
    refine (trace_of_effect (effect_of_handle hok.fresh hv)).imp id fun htrace => ?_
    rw [← hcallrole]
    exact htrace.2
  rcases serveRole_cases hy with ⟨err, hhangup⟩ | ⟨herr, hhup, z, hread, hwrite⟩
  · exact hcall rfl hhangup
  rcases hread with ⟨rfl, hin⟩ | ⟨-, hread⟩
  · rcases hwrite with ⟨rfl, hout⟩ | ⟨-, hwrite⟩
    · rcases hsignals with h | h | h | h
      · exact absurd (herr.symm.trans h) (by decide)
      · exact absurd (hhup.symm.trans h) (by decide)
      · exact absurd (hin.symm.trans h) (by decide)
      · exact absurd (hout.symm.trans h) (by decide)
    · exact hcall rfl hwrite
  · have hz := hcall rfl hread
    rcases hwrite with ⟨rfl, -⟩ | ⟨-, hwrite⟩
    · exact hz
    -- the write handler that follows shortens no history and takes up no descriptor
    have hokz := ok_handle hok hread
    have heffect := effect_of_handle hokz.fresh hwrite
    rcases hz with hlt | hnone
    · exact Or.inl (lt_of_lt_of_le hlt (history_le_of_effect heffect))
    · exact Or.inr (fdOf_none_of_write hokz heffect hnone)

end Traces

/-! ## The notes are right -/

/-- Descriptors are in order, and what is noted of a pending event holds. -/
structure Batch.Noted (b : Batch n L) : Prop where
  owned : b.world.Owned
  not_listener : ∀ r ∈ b.pending, r.owner ≠ none → r.event.fd ≠ b.world.listenerfd
  held : ∀ r ∈ b.pending, ∀ s role, r.owner = some (s, role) → r.givenUp = false →
    (b.world.sessions s).fdOf role = some r.event.fd

section Noted

variable {w w' : World n L} {b b' : Batch n L} {i : LoopInput n L}

/-- The owner of a descriptor holds it. -/
theorem fdOf_of_ownerOf {fd : Fd} {s : Fin n} {role : Role} (h : w.ownerOf fd = some (s, role)) :
    w.sys.fds fd = some s ∧ (w.sessions s).roleOf fd = some role := by
  obtain ⟨t, ht, hrole⟩ := Option.bind_eq_some_iff.mp h
  obtain ⟨role', hrole', heq⟩ := Option.map_eq_some_iff.mp hrole
  obtain ⟨rfl, rfl⟩ := Prod.mk.inj heq
  exact ⟨ht, hrole'⟩

theorem Batch.Noted.start (h : w.Start) : (⟨w, []⟩ : Batch n L).Noted :=
  ⟨.start h, List.forall_mem_nil _, List.forall_mem_nil _⟩

/-- An event of a session changes that session only. -/
theorem sameSession_put (how : w.Owned) {s : Fin n} {y : Ctx n L} (hf : Frame (w.ctx s) y)
    {t : Fin n} (ht : t ≠ s) : SameSession w (w.put y) t := by
  have hsid : t ≠ y.sid := by
    rw [hf.sid]
    exact ht
  refine ⟨w.sessions_put_of_ne hsid, w.histories_put_of_ne hsid, fun role fd hfd => ?_⟩
  have hopen := (how.owns t role fd hfd).2
  obtain ⟨ho, hfds, hinterest⟩ := hf.others fd hopen fun role' => how.not_held ht hfd
  exact ⟨ho.trans hopen.symm, hinterest, hfds⟩

variable [LoadArith L]

/-- The listener is never replaced. -/
theorem listenerfd_processEvent {e : Event} {env : EventEnv n}
    (h : processEvent e env w = some w') : w'.listenerfd = w.listenerfd := by
  rcases processEvent_cases h with ⟨-, rfl⟩ | ⟨-, -, hlisten⟩ | ⟨s, y, -, -, -, rfl⟩
  · rfl
  · rcases acceptEvent_cases hlisten with rfl | ⟨fd, -, rfl | rfl | ⟨s, y, -, -, rfl⟩⟩ <;> rfl
  · rfl

/-- **Every step keeps the notes right.** -/
theorem Batch.Noted.step (h : b.Noted) (hstep : (batchMachine n L).step b i = some b') :
    b'.Noted := by
  have howned : b'.world.Owned := World.Owned.loop (m := b.erase) h.owned (erase_step hstep)
  obtain ⟨w, pending⟩ := b
  cases i with
  | poll events =>
      cases pending with
      | cons r rs => cases hstep
      | nil =>
          obtain rfl := Option.some.inj hstep
          have hheld : ∀ r ∈ (w.reported events).map w.report, ∀ s role,
              r.owner = some (s, role) → (w.sessions s).fdOf role = some r.event.fd := by
            intro r hr s role howner
            obtain ⟨e, -, rfl⟩ := List.mem_map.mp hr
            exact Session.fdOf_of_roleOf (fdOf_of_ownerOf howner).2
          refine ⟨howned, fun r hr howner hfd => ?_, fun r hr s role howner _ =>
            hheld r hr s role howner⟩
          obtain ⟨⟨s, role⟩, hs⟩ := Option.ne_none_iff_exists'.mp howner
          have hrole := hheld r hr s role hs
          rw [hfd] at hrole
          exact howned.listener_free s role hrole
  | process env =>
      cases pending with
      | nil => cases hstep
      | cons r rs =>
          obtain ⟨w', hw', rfl⟩ := Option.map_eq_some_iff.mp hstep
          refine ⟨howned, fun r' hr' howner => ?_, fun r' hr' s role howner hkept => ?_⟩ <;>
            obtain ⟨q, hq, rfl⟩ := List.mem_map.mp hr'
          · show q.event.fd ≠ w'.listenerfd
            rw [listenerfd_processEvent hw']
            exact h.not_listener q (List.mem_cons_of_mem _ hq) howner
          · change q.owner = some (s, role) at howner
            have hlost : q.lost w' = false := (Bool.or_eq_false_iff.mp hkept).2
            unfold Report.lost at hlost
            rw [howner] at hlost
            exact not_not.mp (of_decide_eq_false hlost)
  | share balancer =>
      obtain rfl := Option.some.inj hstep
      exact ⟨howned, h.not_listener, h.held⟩

/-! ## One event -/

/-- An event without flags does nothing. -/
theorem serve_of_not_signals {e : Event} (h : ¬ e.Signals) (env : EventEnv n) (x : Ctx n L) :
    serve e env x = some x := by
  have herr : ¬ e.err = true := fun hflag => h (Or.inl hflag)
  have hhup : ¬ e.hup = true := fun hflag => h (Or.inr (Or.inl hflag))
  have hin : ¬ e.input = true := fun hflag => h (Or.inr (Or.inr (Or.inl hflag)))
  have hout : ¬ e.output = true := fun hflag => h (Or.inr (Or.inr (Or.inr hflag)))
  unfold serve
  cases x.session.roleOf e.fd with
  | none => rfl
  | some role =>
      dsimp only
      unfold serveRole
      rw [if_neg herr, if_neg hhup, if_neg hin, Option.bind_some, if_neg hout]

/-- **One event.**  It goes astray exactly if it hits a descriptor in use
again. -/
theorem ownEvent_iff (h : b.Noted) (i : LoopInput n L) : OwnEvent b i ↔ ¬ HitsReused b i := by
  have hprocess : ∀ {e : Event} {env : EventEnv n} {s : Fin n}, e.fd ≠ b.world.listenerfd →
      b.world.sys.fds e.fd = some s →
      processEvent e env b.world = (serve e env (b.world.ctx s)).map b.world.put := by
    intro e env s hne hs
    unfold processEvent
    rw [if_neg hne, hs]
  constructor
  · rintro hall ⟨env, r, rs, rfl, hpending, howner, hup, hor⟩
    have hmem : r ∈ b.pending := by
      rw [hpending]
      exact List.mem_cons_self
    have hne := h.not_listener r hmem howner
    obtain ⟨⟨s, role⟩, hs⟩ := Option.ne_none_iff_exists'.mp howner
    obtain ⟨w', hw', -, hsame⟩ := hall env r rs s role rfl hpending hs
    rcases hor with hnone | ⟨hheld, hsignals⟩
    · unfold processEvent at hw'
      rw [if_neg hne, hnone] at hw'
      cases hw'
    · obtain ⟨⟨t, role'⟩, ht⟩ := Option.ne_none_iff_exists'.mp hheld
      obtain ⟨hfds, hrole⟩ := fdOf_of_ownerOf ht
      rw [hprocess hne hfds] at hw'
      obtain ⟨y, hy, rfl⟩ := Option.map_eq_some_iff.mp hw'
      have hsid : y.sid = t := (frame_moves (moves_serve (h.owned.ok t) (h.owned.owns t) hy)).sid
      have hsession := (hsame hup t).session
      have hhistory := (hsame hup t).history
      rw [World.sessions_put_of_sid _ hsid] at hsession
      rw [World.histories_put_of_sid _ hsid] at hhistory
      rcases trace_of_serve (h.owned.ok t) hrole hsignals hy with hlt | hnone
      · rw [hhistory] at hlt
        exact absurd hlt (lt_irrefl _)
      · rw [hsession] at hnone
        exact absurd ((Session.fdOf_of_roleOf hrole).symm.trans hnone) nofun
  · intro hgood env r rs s role hi hpending howner
    have hmem : r ∈ b.pending := by
      rw [hpending]
      exact List.mem_cons_self
    have hsome : r.owner ≠ none := by
      rw [howner]
      simp
    have hne := h.not_listener r hmem hsome
    by_cases hup : r.givenUp = true
    · -- nobody is to be touched
      obtain ⟨t, ht⟩ : ∃ t, b.world.sys.fds r.event.fd = some t := by
        apply Option.ne_none_iff_exists'.mp
        exact fun hnone => hgood ⟨env, r, rs, hi, hpending, hsome, hup, Or.inl hnone⟩
      have hserve : serve r.event env (b.world.ctx t) = some (b.world.ctx t) := by
        by_cases hsignals : r.event.Signals
        · have hnone : b.world.ownerOf r.event.fd = none := by
            by_contra hheld
            exact hgood ⟨env, r, rs, hi, hpending, hsome, hup, Or.inr ⟨hheld, hsignals⟩⟩
          unfold World.ownerOf at hnone
          rw [ht, Option.bind_some, Option.map_eq_none_iff] at hnone
          unfold serve
          rw [show (b.world.ctx t).session.roleOf r.event.fd = none from hnone]
        · exact serve_of_not_signals hsignals env _
      refine ⟨b.world, ?_, fun hkept => absurd (hup.symm.trans hkept) (by decide),
        fun _ t => .refl _ t⟩
      rw [hprocess hne ht, hserve, Option.map_some, World.put_ctx]
    · have hheld := h.held r hmem s role howner (Bool.eq_false_of_not_eq_true hup)
      have hfds : b.world.sys.fds r.event.fd = some s := (h.owned.owns s role r.event.fd hheld).1
      obtain ⟨y, hy⟩ := exists_serve (h.owned.ok s) (x := b.world.ctx s) r.event env
      have hframe := frame_moves (moves_serve (h.owned.ok s) (h.owned.owns s) hy)
      refine ⟨b.world.put y, ?_, fun _ t ht => sameSession_put h.owned hframe ht,
        fun hgiven => absurd hgiven hup⟩
      rw [hprocess hne hfds, hy, Option.map_some]

/-- The notes are right in every state of a run. -/
theorem noted_of_mem_states (h : w.Start) (inputs : List (LoopInput n L)) :
    ∀ b ∈ (batchMachine n L).states ⟨w, []⟩ inputs, b.Noted :=
  (batchMachine n L).states_invariant (fun _ _ _ hb hstep => hb.step hstep) (.start h) inputs

/-- **Every event goes to the session that it was reported for** in exactly the
runs in which no event comes for a descriptor that its session has given up and
that is held again, or was closed again for want of a session. -/
theorem ownEvents_always_iff (h : w.Start) (inputs : List (LoopInput n L)) :
    (∀ v ∈ (batchMachine n L).visits ⟨w, []⟩ inputs, OwnEvent v.1 v.2)
      ↔ ∀ v ∈ (batchMachine n L).visits ⟨w, []⟩ inputs, ¬ HitsReused v.1 v.2 := by
  apply forall₂_congr
  intro v hv
  exact ownEvent_iff
    (noted_of_mem_states h inputs v.1 ((batchMachine n L).mem_states_of_mem_visits hv)) v.2

end Noted

/-- A client connects; then its hang-up and an answer of its member come in one
batch. -/
def hangupWithAnswer : List (LoopInput 1 ℤ) :=
  clientConnects ++ [.poll [⟨5, false, false, false, true⟩, ⟨6, true, false, false, false⟩],
    .process (sampleEventEnv .error), .process (sampleEventEnv (.data [65]))]

/-- The answer comes too late and is ignored. -/
theorem ownEvents_of_late_answer :
    sampleWorld.Start ∧ ∀ v ∈ (batchMachine 1 ℤ).visits ⟨sampleWorld, []⟩ hangupWithAnswer,
      OwnEvent v.1 v.2 := by
  refine ⟨start_sampleWorld, (ownEvents_always_iff start_sampleWorld _).mpr ?_⟩
  rintro v hv ⟨env, r, rs, -, hpending, -, hup, hor⟩
  have hfree : ∀ v ∈ (batchMachine 1 ℤ).visits ⟨sampleWorld, []⟩ hangupWithAnswer,
      ∀ r ∈ v.1.pending, r.givenUp = true → v.1.world.sys.fds r.event.fd ≠ none ∧
        v.1.world.ownerOf r.event.fd = none := by decide +kernel
  have hmem : r ∈ v.1.pending := by
    rw [hpending]
    exact List.mem_cons_self
  obtain ⟨hfds, howner⟩ := hfree v hv r hmem hup
  rcases hor with hnone | ⟨hheld, -⟩
  · exact hfds hnone
  · exact hheld howner

/-- A client connects; then its hang-up, a new client and a hang-up of its member
come in one batch, and the new client gets the descriptor of the member. -/
def reuseWithinBatch : List (LoopInput 1 ℤ) :=
  clientConnects ++ [.poll [⟨5, false, false, false, true⟩, ⟨3, true, false, false, false⟩,
      ⟨6, false, false, false, true⟩],
    .process (sampleEventEnv .error),
    .process { sampleEventEnv .error with
      accepted := some 6
      accept := { sampleEnv with
        connect := { sampleEnv.connect with member := ⟨some 8, true, true, true, true⟩ } } }]

/-- The new client is closed because the old member has hung up. -/
theorem stale_event_hits_new_client :
    sampleWorld.Start ∧ ¬ ∀ v ∈ (batchMachine 1 ℤ).visits ⟨sampleWorld, []⟩
        (reuseWithinBatch ++ [.process (sampleEventEnv .error)]), OwnEvent v.1 v.2 := by
  refine ⟨start_sampleWorld, fun hall => ?_⟩
  have hrun : ((batchMachine 1 ℤ).run ⟨sampleWorld, []⟩ reuseWithinBatch).any (fun b =>
      decide (b.world.ownerOf 6 ≠ none) && b.pending.any fun r =>
        decide (b.pending.length = 1 ∧ r.event = ⟨6, false, false, false, true⟩ ∧
          r.owner = some (0, .member) ∧ r.givenUp = true)) = true := by decide +kernel
  obtain ⟨b, hb, hcond⟩ := (Option.any_eq_true _ _).mp hrun
  obtain ⟨hheld, hany⟩ := Bool.and_eq_true_iff.mp hcond
  obtain ⟨r, hr, hreport⟩ := List.any_eq_true.mp hany
  obtain ⟨hlen, hevent, howner, hup⟩ := of_decide_eq_true hreport
  obtain ⟨q, hq⟩ := List.length_eq_one_iff.mp hlen
  obtain rfl : r = q := by
    rw [hq] at hr
    exact List.mem_singleton.mp hr
  have hnoted := noted_of_mem_states start_sampleWorld reuseWithinBatch b
    ((batchMachine 1 ℤ).mem_states_of_run hb)
  have hlast : OwnEvent b (.process (sampleEventEnv .error)) := by
    refine hall (b, _) ?_
    rw [(batchMachine 1 ℤ).visits_append hb]
    exact List.mem_append_right _ List.mem_cons_self
  refine (ownEvent_iff hnoted _).mp hlast
    ⟨sampleEventEnv .error, r, [], rfl, hq, by rw [howner]; simp, hup, Or.inr ⟨?_, ?_⟩⟩
  · rw [hevent]
    exact of_decide_eq_true hheld
  · rw [hevent]
    exact Or.inr (Or.inl rfl)

end OctopusLB
