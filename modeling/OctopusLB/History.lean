/-
# Reading histories

What the properties of a session's history are stated with: whether the session
is in use, what happened since it was handed out or since its clone was
connected, and the bytes received from and sent to a peer.

Each function looks at one entry at a time through a small classifying function,
so that adding an entry is a rewrite.
-/
import OctopusLB.Session

namespace OctopusLB

/-! ## Classifying entries -/

/-- Whether the entry hands the session out or takes it back. -/
def Obs.handsOut : Obs → Option Bool
  | .allocated _ => some true
  | .released _ _ => some false
  | _ => none

/-- The session was handed out. -/
def Obs.isAllocated : Obs → Bool
  | .allocated _ => true
  | _ => false

/-- The session was released. -/
def Obs.isReleased : Obs → Bool
  | .released _ _ => true
  | _ => false

/-- A connection to a clone was established. -/
def Obs.isCloneConnected : Obs → Bool
  | .connected .clone _ => true
  | _ => false

/-- `choose_server` returned. -/
def Obs.choseStatus : Obs → Option ℤ
  | .chose status => some status
  | _ => none

/-- The entry is about bytes received or sent. -/
def Obs.isTraffic : Obs → Bool
  | .received _ _ | .sent _ _ => true
  | _ => false

/-- The bytes that the entry says were received from a peer. -/
def Obs.receivedFrom (role : Role) : Obs → List UInt8
  | .received r bytes => if r = role then bytes else []
  | _ => []

/-- The bytes that the entry says were sent to a peer. -/
def Obs.sentTo (role : Role) : Obs → List UInt8
  | .sent r bytes => if r = role then bytes else []
  | _ => []

theorem Obs.handsOut_of_isTraffic {o : Obs} (h : o.isTraffic = true) : o.handsOut = none := by
  cases o <;> first | rfl | cases h

theorem Obs.isReleased_of_handsOut {o : Obs} (h : o.handsOut = none) : o.isReleased = false := by
  cases o <;> first | rfl | cases h

namespace History

/-- The session has been handed out and not been released since. -/
def inUse : History → Bool
  | [] => false
  | o :: h => o.handsOut.getD (inUse h)

/-- The entries after the latest one with a property. -/
def since (p : Obs → Bool) (h : History) : History := h.takeWhile fun o => !p o

/-- What happened since the session was handed out. -/
def sinceAllocated (h : History) : History := since Obs.isAllocated h

/-- What happened since the clone was connected. -/
def sinceCloneConnected (h : History) : History := since Obs.isCloneConnected h

/-- All bytes received from a peer, in order. -/
def received (role : Role) : History → List UInt8
  | [] => []
  | o :: h => received role h ++ o.receivedFrom role

/-- All bytes sent to a peer, in order. -/
def sent (role : Role) : History → List UInt8
  | [] => []
  | o :: h => sent role h ++ o.sentTo role

/-- The statuses that `choose_server` returned. -/
def choices (h : History) : List ℤ := h.filterMap Obs.choseStatus

/-- No entry is a release. -/
def Unreleased (h : History) : Prop := ∀ o ∈ h, o.isReleased = false

/-- What has been sent to `b` since the latest entry with property `p`, followed
by `queued`, is what has been received from `a`. -/
def Balanced (p : Obs → Bool) (a b : Role) (queued : List UInt8) (h : History) : Prop :=
  (since p h).sent b ++ queued = (since p h).received a

@[simp] theorem inUse_cons (o : Obs) (h : History) :
    inUse (o :: h) = o.handsOut.getD (inUse h) := rfl

/-- Entries that neither hand out nor take back. -/
theorem inUse_append {h h' : History} (hnone : ∀ o ∈ h', o.handsOut = none) :
    inUse (h' ++ h) = inUse h := by
  induction h' with
  | nil => rfl
  | cons o os ih =>
      obtain ⟨ho, hos⟩ := List.forall_mem_cons.mp hnone
      rw [List.cons_append, inUse_cons, ih hos, ho]
      rfl

theorem since_cons (p : Obs → Bool) (o : Obs) (h : History) :
    since p (o :: h) = if p o then [] else o :: since p h := by
  rw [since, List.takeWhile_cons]
  cases p o <;> rfl

@[simp] theorem sinceAllocated_cons (o : Obs) (h : History) :
    sinceAllocated (o :: h) = if o.isAllocated then [] else o :: sinceAllocated h :=
  since_cons _ o h

@[simp] theorem sinceCloneConnected_cons (o : Obs) (h : History) :
    sinceCloneConnected (o :: h)
      = if o.isCloneConnected then [] else o :: sinceCloneConnected h :=
  since_cons _ o h

@[simp] theorem received_nil (role : Role) : received role [] = [] := rfl

@[simp] theorem received_cons (role : Role) (o : Obs) (h : History) :
    received role (o :: h) = received role h ++ o.receivedFrom role := rfl

@[simp] theorem sent_nil (role : Role) : sent role [] = [] := rfl

@[simp] theorem sent_cons (role : Role) (o : Obs) (h : History) :
    sent role (o :: h) = sent role h ++ o.sentTo role := rfl

@[simp] theorem unreleased_cons (o : Obs) (h : History) :
    Unreleased (o :: h) ↔ o.isReleased = false ∧ Unreleased h := List.forall_mem_cons

/-! ## Balanced streams -/

section Balanced

variable {p : Obs → Bool} {a b : Role} {queued : List UInt8} {h : History}

/-- An entry that carries no byte of the stream. -/
theorem Balanced.other (hb : Balanced p a b queued h) {o : Obs} (hp : p o = false)
    (hr : o.receivedFrom a = []) (hs : o.sentTo b = []) : Balanced p a b queued (o :: h) := by
  rw [Balanced, since_cons, hp, if_neg (by simp), sent_cons, received_cons, hr, hs,
    List.append_nil, List.append_nil]
  exact hb

/-- Bytes received are queued at the end. -/
theorem Balanced.receive (hb : Balanced p a b queued h) {bytes : List UInt8}
    (hp : p (.received a bytes) = false) :
    Balanced p a b (queued ++ bytes) (.received a bytes :: h) := by
  have hr : (Obs.received a bytes).receivedFrom a = bytes := if_pos rfl
  have hs : (Obs.received a bytes).sentTo b = [] := rfl
  rw [Balanced, since_cons, hp, if_neg (by simp), sent_cons, received_cons, hr, hs,
    List.append_nil, ← List.append_assoc, hb]

/-- Bytes sent leave the front of the queue. -/
theorem Balanced.send {bytes : List UInt8} (hb : Balanced p a b (bytes ++ queued) h)
    (hp : p (.sent b bytes) = false) : Balanced p a b queued (.sent b bytes :: h) := by
  have hr : (Obs.sent b bytes).receivedFrom a = [] := rfl
  have hs : (Obs.sent b bytes).sentTo b = bytes := if_pos rfl
  rw [Balanced, since_cons, hp, if_neg (by simp), sent_cons, received_cons, hr, hs,
    List.append_nil, List.append_assoc]
  exact hb

/-- The stream is empty right after the entry that it is counted from. -/
theorem Balanced.start {o : Obs} (hp : p o = true) : Balanced p a b [] (o :: h) := by
  rw [Balanced, since_cons, hp, if_pos rfl]
  rfl

end Balanced

end History

end OctopusLB
