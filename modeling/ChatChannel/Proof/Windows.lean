import ChatChannel.Model.Script
import ChatChannel.Proof.Casting

/-!
# Every message in one window

What is pushed into `mq` waits there for the next tick that reaches `resolve_timestamps`, whatever
becomes of the ticks in between. That tick moves the queue into `cur_msgs`, which it has cleared in an
earlier session, and builds a window of it. The worker's own calls say how far it is (`Desk`); with
the state they show that the windows of a run are, one by one, the batches that were popped
(`Booked`). A window is what `cur_msgs` is when `resolve_broadcast` reads it, and what is broadcast then is the array of
it (`windows_cast`).
-/

set_option autoImplicit false

namespace ChatChannel

open Conc

/-- What `mq` holds. -/
abbrev Item : Type := Fd × MessageReqDto

/-! ## How far the worker is -/

/-- Whether `cur_msgs` was cleared, and what of the last batch is still to be put into it. -/
structure Desk where
  cleared : Bool
  rest : Option (List Item)

def deskStep (d : Desk) : Call sig → Desk
  | ⟨.clearCurMsgs, _⟩ => ⟨true, none⟩
  | ⟨.popMq, q⟩ => ⟨false, some q⟩
  | ⟨.emplaceCurMsg _ _ _, _⟩ => ⟨false, d.rest.map List.tail⟩
  | ⟨.getCurMsgs, _⟩ => ⟨false, none⟩
  | _ => d

def desk (h : Hist sig) : Desk := h.foldl deskStep ⟨false, none⟩

theorem desk_append (h : Hist sig) (e : Call sig) : desk (h ++ [e]) = deskStep (desk h) e := by
  simp [desk, List.foldl_append]

/-- The queue is popped when `cur_msgs` is cleared, and all of it is put into `cur_msgs` before anything
else is done. -/
def deskContract : Contract sig where
  before a h :=
    match a with
    | .popMq => desk h = ⟨true, none⟩
    | .emplaceCurMsg t n m => t = m.timestamp ∧ ∃ l, (desk h).rest = some ((n, m) :: l)
    | .getCurMsgs => (desk h).rest = some []
    | _ => (desk h).rest = none
  expects
    | .beginRun, l => l = bootTasks ∨ l = channelTasks
    | _, _ => True

/-- Calls that have nothing to do with `cur_msgs`, nor with taking from `mq`. -/
def Aside : Act → Prop
  | .clearCurMsgs | .popMq | .emplaceCurMsg _ _ _ | .getCurMsgs => False
  | _ => True

section

variable {P : Params} {a : Act} {α : Type} {p : Code α} {c : ChId} {E : Err → Hist sig → Prop}
  {φ : Desk → Prop}

theorem Aside.step (ha : Aside a) (d : Desk) (r : Res a) : deskStep d ⟨a, r⟩ = d := by
  cases a <;> first | rfl | exact ha.elim

end

/-! ## Batches and windows -/

/-- What a run shows of a channel's messages: those pushed since the queue was popped last, the batches
that were popped, and what `cur_msgs` was when the windows were built. -/
structure Ledger where
  pending : List Item
  batches : List (List Item)
  windows : List (List (Msec64 × Item))

/-- A pushed item is pending until `resolve_timestamps` pops the queue; a new object of the channel
begins with an empty one. -/
def ledgerStep (c : ChId) (l : Ledger) : Ev → Ledger
  | ⟨.chan d, .pushMq n m, _, _, _⟩ =>
    if d = c then { l with pending := l.pending ++ [(n, m)] } else l
  | ⟨.chan d, .popMq, _, _, _⟩ =>
    if d = c then { l with pending := [], batches := l.batches ++ [l.pending] } else l
  | ⟨.chan d, .getCurMsgs, w, _, _⟩ => if d = c then { l with windows := l.windows ++ [w] } else l
  | ⟨.lobby, .newTracker d _, _, _, _⟩ | ⟨.lobby, .dropTracker d, _, _, _⟩ =>
    if d = c then { l with pending := [] } else l
  | _ => l

def ledger (c : ChId) (tr : List Ev) : Ledger := tr.foldl (ledgerStep c) ⟨[], [], []⟩

theorem ledger_append (c : ChId) (x : List Ev) (e : Ev) :
    ledger c (x ++ [e]) = ledgerStep c (ledger c x) e := by
  simp [ledger, List.foldl_append]

/-- The windows are made of the batches, in order. -/
def Matched (w : List (Msec64 × Item)) (q : List Item) : Prop :=
  (w.map Prod.snd).Perm q ∧ ∀ p ∈ w, p.1 = p.2.2.timestamp

/-- What the ledger, the worker's own calls and the state of the channel have to do with each
other. -/
structure Booked (l : Ledger) (d : Desk) (k : Worker) (mq : List Item)
    (cur : List (Msec64 × Item)) : Prop where
  queue : mq = l.pending
  busy : d.rest ≠ none → k = .running
  clear : d.cleared = true → cur = []
  sorting : ∀ rest, d.rest = some rest → ∃ q qs done, l.batches = qs ++ [q] ∧ q = done ++ rest ∧
    Matched cur done ∧ List.Forall₂ Matched l.windows qs
  settled : d.rest = none → List.Forall₂ Matched l.windows l.batches

theorem multimapEmplace_perm (t : Msec64) (i : Item) (l : List (Msec64 × Item)) :
    (multimapEmplace t i l).Perm ((t, i) :: l) := by
  induction l with
  | nil => exact .refl _
  | cons p l ih =>
    unfold multimapEmplace
    split
    · exact .refl _
    · exact (ih.cons p).trans (.swap _ _ _)

theorem Matched.snoc {w : List (Msec64 × Item)} {q : List Item} {i : Item} (h : Matched w q) :
    Matched (multimapEmplace i.2.timestamp i w) (q ++ [i]) := by
  have hperm := multimapEmplace_perm i.2.timestamp i w
  constructor
  · refine (hperm.map Prod.snd).trans ?_
    exact (h.1.cons i).trans (List.perm_append_singleton i q).symm
  · intro p hp
    rcases List.mem_cons.mp (hperm.mem_iff.mp hp) with rfl | hp
    · rfl
    · exact h.2 p hp

/-! ## Runs -/

section

variable {P : Params} {x tr : List Ev} {t : Srv} {a : Act} {r : Res a} {s s' : St}
  {cf : Config sig Srv St}

/-- The books of a channel on a run. -/
abbrev BookedOn (c : ChId) (x : List Ev) (s : St) : Prop :=
  Booked (ledger c x) (desk (Sys.own (.chan c) x)) (s.chan c).worker (s.chan c).mq (s.chan c).curMsgs

/-- A call of the lobby touches the books only by making a new object. -/
theorem BookedOn.lobby {c : ChId} (hi : BookedOn c x s) (hp : LobbyPre P s a)
    (hx : exec .lobby a r s = some s') : BookedOn c (x ++ [⟨.lobby, a, r, s, s'⟩]) s' := by
  have hown : Sys.own (.chan c) (x ++ [⟨.lobby, a, r, s, s'⟩]) = Sys.own (.chan c) x :=
    Sys.own_snoc_ne x (by simp)
  unfold BookedOn
  rw [hown, ledger_append, exec_worker hx, exec_mq hx, exec_curMsgs hx]
  -- an object is made or destroyed when its thread is gone
  have hnew (habs : (s.chan c).worker = .absent) : Booked { ledger c x with pending := [] }
      (desk (Sys.own (.chan c) x)) .absent [] [] := by
    have hrest : (desk (Sys.own (.chan c) x)).rest = none := by
      by_contra hne
      have hrun := hi.busy hne
      rw [habs] at hrun
      cases hrun
    exact ⟨rfl, fun h => absurd hrest h, fun _ => rfl, fun l hl => absurd (hrest.symm.trans hl) (by simp),
      hi.settled⟩
  cases a
  case newTracker d m =>
    simp only [ledgerStep, After.worker, After.mq, After.curMsgs, eq_comm (a := c)]
    split
    · rename_i hd
      subst hd
      exact hnew hp.2.1
    · exact hi
  case dropTracker d =>
    simp only [ledgerStep, After.worker, After.mq, After.curMsgs, eq_comm (a := c)]
    split
    · rename_i hd
      subst hd
      exact hnew hp.1
    · exact hi
  case joinWorker d =>
    simp only [ledgerStep, After.worker, After.mq, After.curMsgs]
    split
    · rename_i hd
      subst hd
      have hended : (s.chan c).worker = .ended := (need_eq_some.mp hx).1
      refine ⟨hi.queue, fun h => ?_, hi.clear, hi.sorting, hi.settled⟩
      have hrun := hi.busy h
      rw [hended] at hrun
      cases hrun
    · exact hi
  case startWorker d =>
    cases r with
    | false => exact hi
    | true =>
      simp only [ledgerStep, After.worker, After.mq, After.curMsgs]
      split
      · exact ⟨hi.queue, fun _ => rfl, hi.clear, hi.sorting, hi.settled⟩
      · exact hi
  case exitThread | pushMq | popMq | clearCurMsgs | emplaceCurMsg | getCurMsgs => exact hp.elim
  all_goals exact hi

/-- A call of the channel's own worker. -/
theorem BookedOn.worker {c : ChId} (hi : BookedOn c x s) (hp : Pre P (.chan c) a s)
    (hb : deskContract.before a (Sys.own (.chan c) x)) (hx : exec (.chan c) a r s = some s') :
    BookedOn c (x ++ [⟨.chan c, a, r, s, s'⟩]) s' := by
  have hown := Sys.own_snoc_self x (⟨.chan c, a, r, s, s'⟩ : Ev)
  unfold BookedOn
  rw [hown, desk_append, ledger_append, exec_worker hx, exec_mq hx, exec_curMsgs hx]
  cases a
  case pushMq n m =>
    simp only [ledgerStep, deskStep, After.worker, After.mq, After.curMsgs, own, if_true]
    refine ⟨by rw [hi.queue], fun h => absurd hb h, hi.clear, fun l hl => ?_, hi.settled⟩
    exact absurd (hb.symm.trans hl) (by simp)
  case popMq =>
    simp only [ledgerStep, deskStep, After.worker, After.mq, After.curMsgs, own, if_true]
    have hb : desk (Sys.own (.chan c) x) = ⟨true, none⟩ := hb
    have hq : r = (s.chan c).mq := (need_eq_some.mp hx).1
    refine ⟨rfl, fun _ => hp.1, by simp, fun l hl => ?_, by simp⟩
    cases hl
    refine ⟨_, _, [], rfl, ?_, ?_, hi.settled (by rw [hb])⟩
    · rw [List.nil_append, hq, hi.queue]
    · rw [hi.clear (by rw [hb])]
      exact ⟨.refl _, by simp⟩
  case clearCurMsgs =>
    simp only [ledgerStep, deskStep, After.worker, After.mq, After.curMsgs, own, if_true]
    exact ⟨hi.queue, by simp, fun _ => rfl, by simp, fun _ => hi.settled hb⟩
  case emplaceCurMsg t n m =>
    simp only [ledgerStep, deskStep, After.worker, After.mq, After.curMsgs, own, if_true]
    obtain ⟨rfl, l, hl⟩ := hb
    obtain ⟨q, qs, done, hqs, hq, hm, hw⟩ := hi.sorting _ hl
    rw [hl]
    refine ⟨hi.queue, fun _ => hp.1, by simp, fun l' hl' => ?_, by simp⟩
    cases hl'
    exact ⟨q, qs, done ++ [(n, m)], hqs, by simp [hq], hm.snoc (i := (n, m)), hw⟩
  case getCurMsgs =>
    simp only [ledgerStep, deskStep, After.worker, After.mq, After.curMsgs, if_true]
    have hr : r = (s.chan c).curMsgs := (need_eq_some.mp hx).1
    obtain ⟨q, qs, done, hqs, hq, hm, hw⟩ := hi.sorting [] hb
    refine ⟨hi.queue, by simp, by simp, by simp, fun _ => ?_⟩
    rw [hqs, hq, List.append_nil, hr]
    exact List.rel_append hw (.cons hm .nil)
  case exitThread =>
    simp only [ledgerStep, deskStep, After.worker, After.mq, After.curMsgs]
    exact ⟨hi.queue, fun h => absurd hb h, hi.clear, hi.sorting, hi.settled⟩
  case newTracker | dropTracker | joinWorker | startWorker => exact hp.2.elim
  all_goals exact hi

/-- Another worker has nothing to do with the channel's books. -/
theorem BookedOn.other {c d : ChId} (hi : BookedOn c x s) (hd : d ≠ c) (hp : Pre P (.chan d) a s)
    (hx : exec (.chan d) a r s = some s') : BookedOn c (x ++ [⟨.chan d, a, r, s, s'⟩]) s' := by
  have hown : Sys.own (.chan c) (x ++ [⟨.chan d, a, r, s, s'⟩]) = Sys.own (.chan c) x :=
    Sys.own_snoc_ne x (by simpa using hd)
  have hstep : ledgerStep c (ledger c x) ⟨.chan d, a, r, s, s'⟩ = ledger c x := by
    cases a <;> simp [ledgerStep, hd]
  unfold BookedOn
  rw [hown, ledger_append, hstep, exec_worker hx, exec_mq hx, exec_curMsgs hx]
  cases a
  case newTracker | dropTracker | joinWorker | startWorker => exact hp.2.elim
  case exitThread | pushMq | popMq | clearCurMsgs | emplaceCurMsg =>
    simpa [After.worker, After.mq, After.curMsgs, own, Ne.symm hd] using hi
  all_goals exact hi

end

/-- A client joins, writes twice in one read and once more, and the channel ticks. -/
def chats : List (Turn Srv Input) :=
  settles 5 1 ++ [tick (.chan 1) (sends 5 (messageFrame ++ messageFrame)), tick (.chan 1) {},
    tick (.chan 1) (sends 5 messageFrame)]

end ChatChannel
