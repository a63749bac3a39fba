import ChatChannel.Model.Script
import ChatChannel.Proof.Alphabet
import ChatChannel.Proof.Fields

/-!
# Making a channel

A constructor asks the system for a socket, an epoll instance and a thread, and each may be refused. What
goes wrong in `ServerBase` is caught there and leaves the object without sessions, so that pushing a task
fails later on: in the end a channel is made, or something was refused (`exec_getChannel`).
-/

set_option autoImplicit false

namespace ChatChannel

open Conc

/-- The system refuses what a channel needs: a socket, an epoll instance, a thread. -/
def Denied : Call sig → Prop
  | ⟨.listenSocket, none⟩ | ⟨.bindListen, false⟩ | ⟨.epollCreate _, none⟩
  | ⟨.epollAddListener _, false⟩ | ⟨.startWorker _, false⟩ => True
  | _ => False

instance : DecidablePred Denied := fun ⟨a, r⟩ => by
  unfold Denied
  split <;> infer_instance

/-- A lobby thread of its own, whose channels nobody else pushes tasks to. -/
structure Founder (W : Solo sig St) : Prop where
  step : ∀ a r s s', W.step a r s s' → a ≠ .stall → exec .lobby a r s = some s'
  runner : ∀ s s', W.rely s s' → ∀ c, (s'.base (.chan c)).runner = (s.base (.chan c)).runner

section

variable {W : Solo sig St} {P : Params} {c : ChId} {k : Nat} {a : Act}
  {E : Err → Hist sig → St → Prop} {h : Hist sig} {s s' : St} {r : Res a}

/-- Nothing was refused. -/
def Allowed (h : Hist sig) : Prop := ∀ e ∈ h, ¬ Denied e

theorem allowed_snoc {e : Call sig} : Allowed (h ++ [e]) ↔ Allowed h ∧ ¬ Denied e := by
  unfold Allowed
  rw [List.forall_mem_append, List.forall_mem_singleton]

theorem Allowed.snoc (hh : Allowed h) (ha : ∀ r : Res a, ¬ Denied ⟨a, r⟩) : Allowed (h ++ [⟨a, r⟩]) :=
  allowed_snoc.mpr ⟨hh, ha r⟩

theorem Allowed.snoc_of (hh : Allowed h) (hr : ¬ Denied ⟨a, r⟩) : Allowed (h ++ [⟨a, r⟩]) :=
  allowed_snoc.mpr ⟨hh, hr⟩

theorem not_allowed_snoc {e : Call sig} (hh : ¬ Allowed h) : ¬ Allowed (h ++ [e]) :=
  fun hc => hh (allowed_snoc.mp hc).1

/-- What was refused stays refused. -/
theorem exec_disallowed {α : Type} {p : Code α} {H : Act → Prop} (hp : p.All H) :
    W.Triple (fun h _ => ¬ Allowed h) p (fun _ h _ => ¬ Allowed h)
      fun _ h _ => ¬ Allowed h :=
  .keep (fun _ _ _ hs _ => hs) hp fun _ _ _ _ _ _ hs _ => not_allowed_snoc hs

/-- Nothing was refused, and the channel that is being made has `k` sessions. -/
def Sessions (c : ChId) (k : Nat) (h : Hist sig) (s : St) : Prop :=
  Allowed h ∧ (s.base (.chan c)).runner.length = k

/-- Something was refused when it had `k` sessions. -/
def Barren (c : ChId) (k : Nat) (h : Hist sig) (s : St) : Prop :=
  ¬ Allowed h ∧ (s.base (.chan c)).runner.length = k

theorem stable_sessions (hW : Founder W) :
    W.Stable (Sessions c k) := fun _ s s' hs hr => by
  unfold Sessions
  rw [hW.runner s s' hr]
  exact hs

theorem stable_barren (hW : Founder W) :
    W.Stable (Barren c k) := fun _ s s' hs hr => by
  unfold Barren
  rw [hW.runner s s' hr]
  exact hs

/-- The calls that may be refused, or only look. -/
def Requests : Act → Prop
  | .getListenFd | .listenSocket | .bindListen | .epollCreate _ | .epollAddListener _
  | .storeStop _ _ | .startWorker _ => True
  | _ => False

theorem exec_request (hW : Founder W) (a : Act) (ha : Requests a) :
    W.Triple (Sessions c k) (call a) (fun r h s =>
      (Denied ⟨a, r⟩ → Barren c k h s) ∧ (¬ Denied ⟨a, r⟩ → Sessions c k h s)) E := by
  refine .perform (stable_sessions hW) fun r h s s' hs hx => ?_
  have hstall : a ≠ .stall := by
    rintro rfl
    exact ha
  have hlen : (s'.base (.chan c)).runner.length = k := by
    rw [exec_runner (hW.step _ _ _ _ hx hstall), ← hs.2]
    cases a <;> first | rfl | exact ha.elim
  exact ⟨fun hr => ⟨fun hc => (allowed_snoc.mp hc).2 hr, hlen⟩,
    fun hr => ⟨allowed_snoc.mpr ⟨hs.1, hr⟩, hlen⟩⟩

theorem exec_setNetwork (hW : Founder W) :
    W.Triple (Sessions c k) setNetwork (fun _ => Sessions c k) fun _ => Barren c k := by
  refine .bind (exec_request hW .listenSocket trivial) fun o => ?_
  cases o with
  | none => exact .raise fun h s hs => hs.1 trivial
  | some n =>
    refine .bind ((exec_request hW .bindListen trivial).pre fun h s hs => hs.2 fun hr => hr)
      fun b => ?_
    cases b with
    | false => exact .raise fun h s hs => hs.1 trivial
    | true => exact .ret fun h s hs => hs.2 fun hr => hr

theorem exec_trackerInit (hW : Founder W) :
    W.Triple (Sessions c k) (trackerInit c) (fun _ => Sessions c k)
      fun _ => Barren c k := by
  refine .bind (exec_request hW (.epollCreate c) trivial) fun o => ?_
  cases o with
  | none => exact .raise fun h s hs => hs.1 trivial
  | some n =>
    refine .bind ((exec_request hW (.epollAddListener c) trivial).pre fun h s hs =>
      hs.2 fun hr => hr) fun b => ?_
    cases b with
    | false => exact .raise fun h s hs => hs.1 trivial
    | true => exact .ret fun h s hs => hs.2 fun hr => hr

/-- Pushing a task into one of the sessions. -/
def Pushes (c : ChId) (w : Nat) (t : Task) (p : Code Unit) : Prop :=
  p = pushb c w t ∨ p = pushf c w t

theorem exec_push (hW : Founder W) {w : Nat} {t : Task} {p : Code Unit}
    (hp : Pushes c w t p) (hw : w < k) :
    W.Triple (Sessions c k) p (fun _ => Sessions c k) E := by
  have hlen {s s' : St} {f : Bool} (hs : (s.base (.chan c)).runner.length = k)
      (hr : (s'.base (.chan c)).runner = pushTask f w t (s.base (.chan c)).runner) :
      (s'.base (.chan c)).runner.length = k := by
    rw [hr, pushTask, List.length_modify, hs]
  rcases hp with rfl | rfl
  · refine .bind (Q := fun b h s => b = true ∧ Sessions c k h s) (.perform (stable_sessions hW)
      fun b h s s' hs hx => ?_) fun b => .pure fun hb => ?_
    · have hx := hW.step _ _ _ _ hx (by simp)
      obtain ⟨⟨-, hb⟩, -⟩ := need_eq_some.mp hx
      refine ⟨by rw [hb, hs.2]; exact decide_eq_true hw, hs.1.snoc fun r hr => hr, ?_⟩
      exact hlen hs.2 ((exec_runner hx (.chan c)).trans (if_pos rfl))
    · subst hb
      exact .ret fun _ _ hs => hs
  · refine .bind (Q := fun b h s => b = true ∧ Sessions c k h s) (.perform (stable_sessions hW)
      fun b h s s' hs hx => ?_) fun b => .pure fun hb => ?_
    · have hx := hW.step _ _ _ _ hx (by simp)
      obtain ⟨⟨-, hb⟩, -⟩ := need_eq_some.mp hx
      refine ⟨by rw [hb, hs.2]; exact decide_eq_true hw, hs.1.snoc fun r hr => hr, ?_⟩
      exact hlen hs.2 ((exec_runner hx (.chan c)).trans (if_pos rfl))
    · subst hb
      exact .ret fun _ _ hs => hs

/-- Without sessions a task cannot be pushed. -/
theorem exec_pushb_barren (hW : Founder W) {w : Nat} {t : Task} :
    W.Triple (Barren c 0) (pushb c w t) (fun _ => Sessions c tsCount)
      fun _ h _ => ¬ Allowed h := by
  refine .bind (Q := fun b h s => b = false ∧ ¬ Allowed h) (.perform (stable_barren hW)
    fun b h s s' hs hx => ?_) fun b => .pure fun hb => ?_
  · have hx := hW.step _ _ _ _ hx (by simp)
    obtain ⟨⟨-, hb⟩, -⟩ := need_eq_some.mp hx
    refine ⟨?_, not_allowed_snoc hs.1⟩
    rw [hb, hs.2]
    exact decide_eq_false (Nat.not_lt_zero w)
  · subst hb
    exact .raise fun _ _ hs => hs

/-- `ServerBase::ServerBase` leaves all sessions, or none if something was refused. -/
theorem exec_serverBase (hW : Founder W) (m : Int32) :
    W.Triple (fun h _ => Allowed h) (serverBase c m)
      (fun _ h s => Sessions c tsCount h s ∨ Barren c 0 h s) E := by
  have hpushes : W.Triple (Sessions c tsCount) (do
      pushb c tsPre .clearDeletion
      pushb c tsPoll .polling
      pushb c tsPoll .handleEvents
      pushb c tsLogic .resolveDeletion) (fun _ => Sessions c tsCount) fun _ => Barren c 0 :=
    .bind (exec_push hW (.inl rfl) (by decide)) fun _ =>
      .bind (exec_push hW (.inl rfl) (by decide)) fun _ =>
        .bind (exec_push hW (.inl rfl) (by decide)) fun _ =>
          exec_push hW (.inl rfl) (by decide)
  have hinit : W.Triple (Sessions c 0) (do
      trackerInit c
      call (.newSession c tsCount)
      pushb c tsPre .clearDeletion
      pushb c tsPoll .polling
      pushb c tsPoll .handleEvents
      pushb c tsLogic .resolveDeletion) (fun _ => Sessions c tsCount) fun _ => Barren c 0 := by
    refine .bind (exec_trackerInit hW) fun _ => .bind (.perform (stable_sessions hW)
      fun r h s s' hs hx => ⟨hs.1.snoc fun r hr => hr, ?_⟩) fun _ => hpushes
    rw [exec_runner (hW.step _ _ _ _ hx (by simp)), After.runner, if_pos rfl, List.length_append, hs.2,
      List.length_replicate, Nat.zero_add]
  refine .bind (Q := fun _ => Sessions c 0) (.perform (fun _ _ _ hs _ => hs) fun r h s s' hs hx =>
    ⟨hs.snoc fun r hr => hr, ?_⟩) fun _ => .handle (E := fun _ => Barren c 0) (.conseq
      (.bind (exec_request hW .getListenFd trivial) fun n => ?_) (fun _ _ h => h)
      (fun _ _ _ h => .inl h) fun _ _ _ h => h) fun _ => .ret fun _ _ hs => .inr hs
  · rw [exec_runner (hW.step _ _ _ _ hx (by simp)), After.runner, if_pos rfl]
    rfl
  · have hstart : W.Triple (Sessions c 0) (do
        if n = fdErr then setNetwork
        trackerInit c
        call (.newSession c tsCount)
        pushb c tsPre .clearDeletion
        pushb c tsPoll .polling
        pushb c tsPoll .handleEvents
        pushb c tsLogic .resolveDeletion) (fun _ => Sessions c tsCount) fun _ => Barren c 0 := by
      split
      · exact .bind (exec_setNetwork hW) fun _ => hinit
      · exact hinit
    exact hstart.pre fun h s hs => hs.2 fun hr => hr

/-- **A channel is made unless something is refused.** -/
theorem exec_newChannel (hW : Founder W) (m : Int32) :
    W.Triple (fun h _ => Allowed h) (newChannel c m) (fun _ h _ => Allowed h)
      fun _ h _ => ¬ Allowed h := by
  have hworker : W.Triple (Sessions c tsCount) (do
      pushf c tsLogic .chat
      call (.storeStop c false)
      unless ← call (.startWorker c) do throw Err.threadFailed
      pushf c tsLogic .resolvePool) (fun _ h _ => Allowed h) fun _ h _ => ¬ Allowed h := by
    refine .bind (exec_push hW (.inr rfl) (by decide)) fun _ =>
      .bind (exec_request hW (.storeStop c false) trivial) fun _ =>
        .bind ((exec_request hW (.startWorker c) trivial).pre fun h s hs => hs.2 fun hr => hr)
          fun b => ?_
    cases b with
    | false => exact .raise fun h s hs => (hs.1 trivial).1
    | true =>
      exact (exec_push hW (.inr rfl) (by decide)).conseq (fun h s hs => hs.2 fun hr => hr)
        (fun _ h s hs => hs.1) fun _ _ _ h => h
  refine .bind (exec_serverBase hW m) fun _ => .handle (.bind (Q := fun _ => Sessions c tsCount)
    ?_ fun _ => hworker) fun e => .bind (exec_disallowed (founding_destroyServerBase c)) fun _ =>
      .raise fun _ _ hs => hs
  rintro h s (hs | hs)
  · exact exec_push hW (.inl rfl) (by decide) h s hs
  · exact exec_pushb_barren hW h s hs

theorem exec_getChannel (hW : Founder W) :
    W.Triple (fun h _ => Allowed h) (getChannel P c) (fun _ h _ => Allowed h)
      fun _ h _ => ¬ Allowed h := by
  have hstable : W.Stable fun h _ => Allowed h := fun _ _ _ hs _ => hs
  refine .bind (Q := fun _ h _ => Allowed h) (.perform hstable fun r h s s' hs _ =>
    hs.snoc fun r hr => hr) fun b => ?_
  cases b with
  | true => exact .ret fun _ _ hs => hs
  | false =>
    exact .bind (exec_newChannel hW P.chMaxFd) fun _ => .perform hstable fun r h s s' hs _ =>
      hs.snoc fun r hr => hr

end

end ChatChannel
