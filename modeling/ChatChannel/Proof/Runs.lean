import ChatChannel.Proof.LobbyThread
import ChatChannel.Proof.Worker

/-!
# The events of a run

Every thread respects its preconditions, so on every run of the server, however the threads
interleave and whatever the clients and the kernel do, each call is made under its precondition. An
invariant of runs is then a property that such events keep.
-/

set_option autoImplicit false

namespace ChatChannel

open Conc

variable {P : Params}

abbrev Ev := Event sig Srv St

/-- A call made under the discipline. -/
structure Legal (P : Params) (e : Ev) : Prop where
  wf : Wf e.pre
  pre : Pre P e.tid e.act e.pre
  exec : exec e.tid e.act e.res e.pre = some e.post

/-- What a thread knows at the start of its body. -/
def LoopInv : Srv → St → Prop
  | .lobby => In Idle
  | .chan c => fun s => Rest (view c s)

theorem house_init : House none (init P) where
  nodup := List.nodup_nil
  absent := fun _ _ _ => rfl
  tasks := fun c hc _ => absurd hc (by simp [init])
  cursor := rfl

theorem loopInv_init : ∀ t, LoopInv t (init P)
  | .lobby => ⟨house_init, ⟨rfl, rfl, rfl, rfl⟩⟩
  | .chan _ => ⟨rfl, rfl, rfl, rfl⟩

theorem server_verified {tr : List Ev} {c : Config sig Srv St}
    (h : (server P).Run (init P) tr c) : (discipline P).Verified LoopInv tr c :=
  Outline.sound (wf_init P) loopInv_init
    (fun t => match t with | .lobby => lobby_proc | .chan _ => worker_proc) h

theorem legal {tr : List Ev} {c : Config sig Srv St} (h : (server P).Run (init P) tr c) :
    ∀ e ∈ tr, Legal P e := by
  intro e he
  obtain ⟨hw, hp⟩ := (server_verified h).events e he
  exact ⟨hw, hp, h.step_of_mem e he⟩

/-- An invariant of the runs whose events meet the condition `C`. -/
theorem run_invariant {C : Ev → Prop} {I : St → Prop} (h₀ : I (init P))
    (hstep : ∀ e, Legal P e → C e → I e.pre → I e.post) {tr : List Ev} {c : Config sig Srv St}
    (h : (server P).Run (init P) tr c) (hC : ∀ e ∈ tr, C e) :
    I c.st ∧ ∀ e ∈ tr, I e.pre :=
  h.invariant h₀ fun e he => hstep e (legal h e he) (hC e he)

/-! ## Reports under way -/

/-- The reports the lobby has not finished with. -/
def underWay (s : St) : List ChannelReport :=
  s.lobby.reports ++ s.lobby.localQ ++ s.lobby.req.toList

section

variable {t : Srv} {a : Act} {r : Res a} {s s' : St}

theorem mem_underWay {q : ChannelReport} :
    q ∈ underWay s ↔ q ∈ s.lobby.reports ∨ q ∈ s.lobby.localQ ∨ s.lobby.req = some q := by
  simp [underWay]

/-- A report under way was so before, or is the one just made. -/
theorem underWay_before {q : ChannelReport} (h : exec t a r s = some s') (hq : q ∈ underWay s') :
    q ∈ underWay s ∨ ∃ p, a = .report q.from' p q.join ∧
      q.author = (s.base t).aux.source.map Prod.snd := by
  rw [mem_underWay] at hq ⊢
  rw [exec_lobby h] at hq
  cases a
  case report n p j =>
    rcases hq with hq | hq
    · rcases List.mem_append.mp hq with hq | hq
      · exact .inl (.inl hq)
      · rw [List.mem_singleton.mp hq]
        exact .inr ⟨p, rfl, rfl⟩
    · exact .inl (.inr hq)
  case popReports =>
    left
    rcases hq with hq | hq | hq
    · simp [After.lobby] at hq
    · exact .inl hq
    · exact .inr (.inr hq)
  case nextReport =>
    left
    rcases hq with hq | hq | hq
    · exact .inl hq
    · exact .inr (.inl (List.mem_of_mem_tail hq))
    · have hr : r = s.lobby.localQ.head? := (need_eq_some.mp h).1
      have hhead : s.lobby.localQ.head? = some q := hr.symm.trans hq
      exact .inr (.inl (List.mem_of_mem_head? hhead))
  case dropReports =>
    left
    rcases hq with hq | hq | hq
    · exact .inl hq
    · simp [After.lobby] at hq
    · simp [After.lobby] at hq
  all_goals exact .inl hq

end

/-! ## Servers that take no part -/

/-- The call is made by one of the servers, and puts a client into the `leave_pool` of one of them
only. -/
def Within (vs : List Srv) (e : Ev) : Prop :=
  e.tid ∈ vs ∧ match e.act with
    | .emplaceLeave c _ _ => .chan c ∈ vs
    | _ => True

instance (vs : List Srv) (e : Ev) : Decidable (Within vs e) := by
  obtain ⟨t, a, r, s, s'⟩ := e
  induction a using Act.casesOn
  case emplaceLeave c n m => exact inferInstanceAs (Decidable (t ∈ vs ∧ Srv.chan c ∈ vs))
  all_goals exact inferInstanceAs (Decidable (t ∈ vs ∧ True))

/-- No other server holds a lock, closes a client or has to let go of one. -/
structure Confined (vs : List Srv) (s : St) : Prop where
  holder : ∀ c v, (s.chan c).mtx = some v → v ∈ vs
  cursor : ∀ v, (s.base v).aux.cursor ≠ none → v ∈ vs
  leavePool : ∀ c, (s.chan c).leavePool ≠ [] → .chan c ∈ vs

section

variable {t : Srv} {a : Act} {r : Res a} {s s' : St} {vs : List Srv}

theorem Confined.holder_step (hi : Confined vs s) (ht : t ∈ vs) (h : exec t a r s = some s')
    (c : ChId) (v : Srv) (hm : (s'.chan c).mtx = some v) : v ∈ vs := by
  rw [exec_mtx h] at hm
  have hold := hi.holder c v
  cases a
  case lockPool d =>
    simp only [After.mtx] at hm
    split at hm
    · cases hm
      exact ht
    · exact hold hm
  case unlockPool d => exact hold (Option.ite_none_left_eq_some.mp hm).2
  case newTracker d m => exact hold (Option.ite_none_left_eq_some.mp hm).2
  case dropTracker d => exact hold (Option.ite_none_left_eq_some.mp hm).2
  all_goals exact hold hm

theorem Confined.cursor_step (hi : Confined vs s) (ht : t ∈ vs) (h : exec t a r s = some s')
    (v : Srv) (hc : (s'.base v).aux.cursor ≠ none) : v ∈ vs := by
  by_cases hv : v = t
  · exact hv ▸ ht
  refine hi.cursor v fun hnone => hc ?_
  rw [exec_cursor h]
  cases a
  case newTracker d m => simp [After.cursor, hnone]
  case dropTracker d => simp [After.cursor, hnone]
  case setCursor o => simp [After.cursor, hv, hnone]
  case deleteClient n => simp [After.cursor, hv, hnone]
  case close n => simp [After.cursor, hv, hnone]
  case clearBuffer n => simp [After.cursor, hv, hnone]
  all_goals exact hnone

theorem Confined.leavePool_step (hi : Confined vs s) (hw : Within vs ⟨t, a, r, s, s'⟩)
    (h : exec t a r s = some s') (c : ChId) (hl : (s'.chan c).leavePool ≠ []) : .chan c ∈ vs := by
  rw [exec_leavePool h] at hl
  have hold := hi.leavePool c
  cases a
  case emplaceLeave d n m =>
    by_cases hc : c = d
    · exact hc ▸ hw.2
    · exact hold (by simpa [After.leavePool, hc] using hl)
  case takeLeavePool =>
    by_cases hc : c = own t
    · simp [After.leavePool, hc] at hl
    · exact hold (by simpa [After.leavePool, hc] using hl)
  case newTracker d m =>
    by_cases hc : c = d
    · simp [After.leavePool, hc] at hl
    · exact hold (by simpa [After.leavePool, hc] using hl)
  case dropTracker d =>
    by_cases hc : c = d
    · simp [After.leavePool, hc] at hl
    · exact hold (by simpa [After.leavePool, hc] using hl)
  all_goals exact hold hl

theorem confined_init : Confined vs (init P) :=
  ⟨by simp [init, Chan.fresh], fun v hv => by cases v <;> simp [init, Base.fresh, Aux.fresh] at hv,
    by simp [init, Chan.fresh]⟩

theorem Confined.step {e : Ev} (hl : Legal P e) (hw : Within vs e) (hi : Confined vs e.pre) :
    Confined vs e.post :=
  ⟨hi.holder_step hw.1 hl.exec, hi.cursor_step hw.1 hl.exec, hi.leavePool_step hw hl.exec⟩

theorem confined {tr : List Ev} {c : Config sig Srv St} (h : (server P).Run (init P) tr c)
    (hw : ∀ e ∈ tr, Within vs e) : Confined vs c.st ∧ ∀ e ∈ tr, Confined vs e.post := by
  obtain ⟨hend, hpre⟩ := run_invariant (C := Within vs) confined_init
    (fun _ hl hC hi => Confined.step hl hC hi) h hw
  exact ⟨hend, fun e he => Confined.step (legal h e he) (hw e he) (hpre e he)⟩

end

end ChatChannel
