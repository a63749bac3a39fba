import ChatChannel.Model.Script
import ChatChannel.Proof.Conduct

/-!
# Stopping and restarting a channel

A worker that finds nobody left sets its flag and ends; the lobby, on the next join, waits for it,
starts another and clears the flag. What the two threads have done (`Proof/Conduct.lean`) and the
state of the channel are tied together by an invariant of runs (`Tied`).

It shows that the wait is short: a worker that the lobby waits for inside `Channel::join` has set its flag in
the critical section of its tick and looks at it next. It also shows what can go wrong: the new thread may look
at the flag before the lobby clears it.
-/

set_option autoImplicit false

namespace ChatChannel

open Conc

/-! ## The lobby, a channel and its worker -/

/-- What the lobby has done about a channel, the channel's flag and thread, whether it is in the map,
and what its worker has done. -/
structure Linked (w : Note) (flag : Bool) (k : Worker) (mapped : Prop) (h : Hist sig) : Prop where
  flagged : w.found = true → flag = true
  unmapped : w.made = true → ¬ mapped
  threaded : k = .running → w.started = true
  served : mapped → w.started = true ∨ flag = true ∨ w.raised = true
  fresh : seen h = true → k = .running ∧ (flag = false ∨ w.raised = true)
  ending : Leaving h → k = .running

theorem leaving_append {h : Hist sig} {e : Call sig} :
    Leaving (h ++ [e]) ↔ ∃ c, e = ⟨.loadStop c, true⟩ := by
  constructor
  · rintro ⟨x, c, hx⟩
    have hx := List.append_inj' hx rfl
    exact ⟨c, by simpa using hx.2⟩
  · rintro ⟨c, rfl⟩
    exact ⟨h, c, rfl⟩

section

variable {P : Params} {c : ChId} {a : Act} {r : Res a} {s s' : St} {hl hw : Hist sig}

/-- A call of the lobby. -/
theorem Linked.lobby
    (hi : Linked (noteAfter c hl) (s.chan c).stopFlag (s.chan c).worker (c ∈ s.lobby.ids) hw)
    (hp : LobbyPre P s a) (hb : lobbyContract.before a hl) (hnd : s.lobby.ids.Nodup)
    (hx : exec .lobby a r s = some s') :
    Linked (noteAfter c (hl ++ [⟨a, r⟩])) (s'.chan c).stopFlag (s'.chan c).worker
      (c ∈ s'.lobby.ids) hw := by
  rw [noteAfter_append, exec_stopFlag hx, exec_worker hx, exec_lobby hx]
  cases a
  case loadStop d =>
    simp only [noteStep, After.stopFlag, After.worker, After.lobby]
    split
    · rename_i hd
      subst hd
      obtain ⟨⟨hr, -⟩, -⟩ := need_eq_some.mp hx
      exact ⟨fun h => hr.symm.trans h, hi.unmapped, hi.threaded, hi.served, hi.fresh, hi.ending⟩
    · exact hi
  case storeStop d b =>
    simp only [noteStep, After.stopFlag, After.worker, After.lobby, eq_comm (a := c)]
    split
    · rename_i hd
      subst hd
      refine ⟨id, hi.unmapped, hi.threaded, fun hm => ?_, fun h => ⟨(hi.fresh h).1, ?_⟩, hi.ending⟩
      · cases b with
        | true => exact .inr (.inl rfl)
        | false => exact .inl ((hb rfl).resolve_right fun h => hi.unmapped h hm)
      · cases b with
        | true => exact .inr rfl
        | false => exact .inl rfl
    · exact hi
  case startWorker d =>
    cases r with
    | false => exact hi
    | true =>
      simp only [noteStep, After.stopFlag, After.worker, After.lobby, eq_comm (a := c)]
      split
      · exact ⟨hi.flagged, hi.unmapped, fun _ => rfl, fun _ => .inl rfl, fun h => ⟨rfl, (hi.fresh h).2⟩,
          fun _ => rfl⟩
      · exact hi
  case joinWorker d =>
    simp only [noteStep, After.stopFlag, After.worker, After.lobby, eq_comm (a := c)]
    split
    · rename_i hd
      subst hd
      have hended : (s.chan d).worker = .ended := (need_eq_some.mp hx).1
      have hgone : (s.chan d).worker ≠ .running := by simp [hended]
      exact ⟨hi.flagged, hi.unmapped, by simp, fun _ => .inr (.inl (hi.flagged hb.1)),
        fun h => absurd (hi.fresh h).1 hgone, fun h => absurd (hi.ending h) hgone⟩
    · exact hi
  case newTracker d m =>
    simp only [noteStep, After.stopFlag, After.worker, After.lobby, eq_comm (a := c)]
    split
    · rename_i hd
      subst hd
      have hgone : (s.chan d).worker ≠ .running := by simp [hp.2.1]
      exact ⟨by simp [Note.blank], fun _ => hp.2.2, by simp, fun hm => absurd hm hp.2.2,
        fun h => absurd (hi.fresh h).1 hgone, fun h => absurd (hi.ending h) hgone⟩
    · exact hi
  case dropTracker d =>
    simp only [noteStep, After.stopFlag, After.worker, After.lobby, eq_comm (a := c)]
    split
    · rename_i hd
      subst hd
      have hgone : (s.chan d).worker ≠ .running := by simp [hp.1]
      exact ⟨by simp, by simp, by simp,
        fun hm => .inr (.inr (hb.2.1.resolve_right fun h => hi.unmapped h hm)),
        fun h => absurd (hi.fresh h).1 hgone, fun h => absurd (hi.ending h) hgone⟩
    · exact hi
  case insertChannel d =>
    simp only [noteStep, After.stopFlag, After.worker, After.lobby]
    split
    · rename_i hd
      subst hd
      exact ⟨hi.flagged, by simp, hi.threaded, fun _ => .inl hb.1, hi.fresh, hi.ending⟩
    · rename_i hd
      simpa [Ne.symm hd] using hi
  case eraseChannel d =>
    simp only [noteStep, After.stopFlag, After.worker, After.lobby]
    split
    · rename_i hd
      subst hd
      have hgone : d ∉ s.lobby.ids.erase d := hnd.not_mem_erase
      have hstill : (s.chan d).worker ≠ .running := fun h => by
        have hs := hi.threaded h
        rw [hb] at hs
        cases hs
      exact ⟨hi.flagged, fun _ => hgone, hi.threaded, fun hm => absurd hm hgone,
        fun h => absurd (hi.fresh h).1 hstill, hi.ending⟩
    · rename_i hd
      simpa [List.mem_erase_of_ne (Ne.symm hd)] using hi
  case getEfd d =>
    simp only [noteStep, After.stopFlag, After.worker, After.lobby]
    split <;> exact ⟨hi.flagged, hi.unmapped, hi.threaded, hi.served, hi.fresh, hi.ending⟩
  case exitThread => exact hp.elim
  all_goals exact hi

/-- A worker leaves the map alone, and the flags and threads of other channels. -/
theorem worker_elsewhere {d : ChId} (hp : Pre P (.chan d) a s)
    (hx : exec (.chan d) a r s = some s') : s'.lobby.ids = s.lobby.ids ∧
      (d ≠ c → (s'.chan c).stopFlag = (s.chan c).stopFlag ∧
        (s'.chan c).worker = (s.chan c).worker) := by
  rw [exec_stopFlag hx, exec_worker hx, exec_lobby hx]
  cases a
  case storeStop e b =>
    have he : e = d := hp.2.1
    refine ⟨rfl, fun hd => ⟨?_, rfl⟩⟩
    simp [After.stopFlag, he, Ne.symm hd]
  case exitThread =>
    refine ⟨rfl, fun hd => ⟨rfl, ?_⟩⟩
    simp [After.worker, own, Ne.symm hd]
  case joinWorker | startWorker | newTracker | dropTracker | insertChannel | eraseChannel =>
    exact hp.2.elim
  all_goals exact ⟨rfl, fun _ => ⟨rfl, rfl⟩⟩

/-- A call of the channel's own worker. -/
theorem Linked.worker
    (hi : Linked (noteAfter c hl) (s.chan c).stopFlag (s.chan c).worker (c ∈ s.lobby.ids) hw)
    (hp : Pre P (.chan c) a s) (hx : exec (.chan c) a r s = some s') :
    Linked (noteAfter c hl) (s'.chan c).stopFlag (s'.chan c).worker (c ∈ s'.lobby.ids)
      (hw ++ [⟨a, r⟩]) := by
  rw [(worker_elsewhere (c := c) hp hx).1, exec_stopFlag hx, exec_worker hx]
  cases a
  case loadStop d =>
    have hd : d = c := hp
    subst hd
    obtain ⟨⟨hr, hrun⟩, -⟩ := need_eq_some.mp hx
    refine ⟨hi.flagged, hi.unmapped, hi.threaded, hi.served, fun h => ⟨hrun rfl, .inl ?_⟩,
      fun _ => hrun rfl⟩
    rw [seen_append] at h
    cases r with
    | true => cases h
    | false => exact hr.symm
  case storeStop d b =>
    obtain ⟨-, rfl, rfl, -⟩ := hp
    simp only [After.stopFlag, After.worker, if_true]
    refine ⟨fun _ => rfl, hi.unmapped, hi.threaded, fun _ => .inr (.inl rfl), fun h => ?_, fun h => ?_⟩
    · rw [seen_append] at h
      cases h
    · obtain ⟨e, he⟩ := leaving_append.mp h
      cases he
  case exitThread =>
    simp only [After.stopFlag, After.worker, own, if_true]
    refine ⟨hi.flagged, hi.unmapped, by simp, hi.served, fun h => ?_, fun h => ?_⟩
    · rw [seen_append] at h
      cases h
    · obtain ⟨e, he⟩ := leaving_append.mp h
      cases he
  case joinWorker | startWorker | newTracker | dropTracker | insertChannel | eraseChannel =>
    exact hp.2.elim
  all_goals
    refine ⟨hi.flagged, hi.unmapped, hi.threaded, hi.served, fun h => hi.fresh ?_, fun h => ?_⟩
    · rw [seen_append] at h
      exact h
    · obtain ⟨e, he⟩ := leaving_append.mp h
      cases he

end

/-! ## Runs -/

section

variable {P : Params} {tr : List Ev} {c : Config sig Srv St}

/-- What a run has done is tied to the state it is in. -/
structure Tied (x : List Ev) (s : St) : Prop where
  nodup : s.lobby.ids.Nodup
  linked : ∀ c, Linked (noteAfter c (Sys.own .lobby x)) (s.chan c).stopFlag (s.chan c).worker
    (c ∈ s.lobby.ids) (Sys.own (.chan c) x)

theorem tied_init : Tied [] (init P) :=
  ⟨List.nodup_nil, fun c => ⟨by simp [noteAfter, Note.blank], by simp [noteAfter, Note.blank],
    by simp [init, Chan.fresh], by simp [init], by simp [seen],
    fun ⟨x, d, h⟩ => absurd h (by simp)⟩⟩

theorem Tied.step {x : List Ev} {e : Ev} (hi : Tied x e.pre) (hl : Legal P e)
    (hb : (contract e.tid).before e.act (Sys.own e.tid x)) : Tied (x ++ [e]) e.post := by
  obtain ⟨t, a, r, s, s'⟩ := e
  obtain ⟨-, hp, hx⟩ := hl
  cases t with
  | lobby =>
    refine ⟨?_, fun c => ?_⟩
    · rw [exec_lobby hx]
      cases a
      case insertChannel d =>
        have hd : d ∉ s.lobby.ids := (hi.linked d).unmapped hb.2
        simpa [After.lobby, List.nodup_append] using ⟨hi.nodup, fun c hc h => hd (h ▸ hc)⟩
      case eraseChannel d => exact hi.nodup.erase d
      all_goals exact hi.nodup
    · rw [Sys.own_snoc_self x ⟨.lobby, a, r, s, s'⟩, Sys.own_snoc_ne x (by simp)]
      exact (hi.linked c).lobby hp hb hi.nodup hx
  | chan d =>
    refine ⟨?_, fun c => ?_⟩
    · rw [(worker_elsewhere (c := d) hp hx).1]
      exact hi.nodup
    · rw [Sys.own_snoc_ne x (t := .lobby) (by simp)]
      by_cases hd : d = c
      · subst hd
        rw [Sys.own_snoc_self x ⟨.chan d, a, r, s, s'⟩]
        exact (hi.linked d).worker hp hx
      · obtain ⟨hids, hsame⟩ := worker_elsewhere (c := c) hp hx
        rw [Sys.own_snoc_ne x (by simpa using hd), (hsame hd).1, (hsame hd).2, hids]
        exact hi.linked c

theorem tied (h : (server P).Run (init P) tr c) :
    Tied tr c.st ∧ ∀ x e y, tr = x ++ e :: y → Tied x e.pre := by
  refine h.along tied_init fun x e y hs hi => ?_
  exact hi.step (legal h e (by simp [hs])) ((conduct_run h).2 x e y hs)

/-- What is tied to a call that is about to be made. -/
theorem before_next (h : (server P).Run (init P) tr c) {t : Srv} {a : Act} {k : Res a → Code Unit}
    (hp : c.prog t = .act a k) : (contract t).before a (Sys.own t tr) := by
  have hobeys := (conduct_run h).1 t
  rw [hp] at hobeys
  exact hobeys.1

/-! ## Waiting for a worker -/

/-- Something makes the lobby throw while it holds a `pool_mtx`. -/
def ThrowsLocked (e : Ev) : Prop :=
  e.tid = .lobby ∧ Fails ⟨e.act, e.res⟩ ∧ ∃ d, (e.pre.chan d).mtx = some .lobby

/-- The lobby's history says which locks it holds, and it is one at most. -/
structure Grip (x : List Ev) (s : St) : Prop where
  clean : Clean (Sys.own .lobby x)
  held : ∀ d, (s.chan d).mtx = some .lobby ↔ d ∈ heldAfter (Sys.own .lobby x)
  one : ∀ d ∈ heldAfter (Sys.own .lobby x), ∀ e ∈ heldAfter (Sys.own .lobby x), d = e

theorem grip_init : Grip [] (init P) :=
  ⟨Clean.nil, by simp [init, Chan.fresh, heldAfter], by simp [heldAfter]⟩

/-- A call of the lobby, with what it does to the locks. -/
theorem Grip.lobby {x : List Ev} {a : Act} {r : Res a} {s s' : St} (hi : Grip x s)
    (hx : exec .lobby a r s = some s') (hb : lobbyContract.before a (Sys.own .lobby x)) :
    (∀ d, (s'.chan d).mtx = some .lobby ↔
        d ∈ lockStep (heldAfter (Sys.own .lobby x)) ⟨a, r⟩) ∧
      ∀ d ∈ lockStep (heldAfter (Sys.own .lobby x)) ⟨a, r⟩,
        ∀ e ∈ lockStep (heldAfter (Sys.own .lobby x)) ⟨a, r⟩, d = e := by
  have hnone {d : ChId} (h0 : heldAfter (Sys.own .lobby x) = ∅) :
      (s.chan d).mtx ≠ some .lobby := fun h => by
    have hd := (hi.held d).mp h
    rw [h0] at hd
    exact absurd hd (Finset.notMem_empty d)
  constructor
  · intro d
    rw [exec_mtx hx]
    have hd := hi.held d
    cases a
    case lockPool e =>
      by_cases he : d = e
      · simp [After.mtx, lockStep, he]
      · simpa [After.mtx, lockStep, he] using hd
    case unlockPool e =>
      by_cases he : d = e
      · simp [After.mtx, lockStep, he]
      · simpa [After.mtx, lockStep, he] using hd
    case newTracker e m =>
      have h0 := hb hi.clean
      by_cases he : d = e
      · simp [After.mtx, lockStep, he, h0]
      · simpa [After.mtx, lockStep, he] using hd
    case dropTracker e =>
      have h0 := hb.1 hi.clean
      by_cases he : d = e
      · simp [After.mtx, lockStep, he, h0]
      · simpa [After.mtx, lockStep, he] using hd
    all_goals exact hd
  · cases a
    case lockPool e =>
      rw [lockStep, hb hi.clean]
      simp
    case unlockPool e =>
      exact fun d hd f hf => hi.one d (Finset.mem_of_mem_erase hd) f (Finset.mem_of_mem_erase hf)
    all_goals exact hi.one

theorem Grip.step {x : List Ev} {e : Ev} (hi : Grip x e.pre) (hl : Legal P e)
    (hb : (contract e.tid).before e.act (Sys.own e.tid x)) (ht : ¬ ThrowsLocked e) :
    Grip (x ++ [e]) e.post := by
  obtain ⟨t, a, r, s, s'⟩ := e
  obtain ⟨-, hp, hx⟩ := hl
  cases t with
  | lobby =>
    obtain ⟨hheld, hone⟩ := hi.lobby hx hb
    have hown : Sys.own .lobby (x ++ [⟨.lobby, a, r, s, s'⟩]) = Sys.own .lobby x ++ [⟨a, r⟩] :=
      Sys.own_snoc_self x ⟨.lobby, a, r, s, s'⟩
    refine ⟨?_, ?_, ?_⟩
    · rw [hown, clean_append]
      refine ⟨hi.clean, fun hf => Finset.eq_empty_of_forall_notMem fun d hd => ?_⟩
      exact ht ⟨rfl, hf, d, (hi.held d).mpr hd⟩
    · rw [hown, heldAfter_append]
      exact hheld
    · rw [hown, heldAfter_append]
      exact hone
  | chan c =>
    have hown : Sys.own .lobby (x ++ [⟨.chan c, a, r, s, s'⟩]) = Sys.own .lobby x :=
      Sys.own_snoc_ne x (by simp)
    refine ⟨by rw [hown]; exact hi.clean, fun d => ?_, by rw [hown]; exact hi.one⟩
    rw [hown, ← hi.held d, exec_mtx hx]
    cases a
    case lockPool e =>
      have hfree : (s.chan e).mtx = none := (need_eq_some.mp hx).1
      by_cases he : d = e
      · simp [After.mtx, he, hfree]
      · simp [After.mtx, he]
    case unlockPool e =>
      obtain ⟨-, rfl, hm, -⟩ := hp
      have hheld : (s.chan e).mtx = some (.chan e) := hm
      by_cases he : d = e
      · simp [After.mtx, he, hheld]
      · simp [After.mtx, he]
    case newTracker | dropTracker => exact hp.2.elim
    all_goals exact Iff.rfl

theorem grip (h : (server P).Run (init P) tr c) (ht : ∀ e ∈ tr, ¬ ThrowsLocked e) :
    Grip tr c.st :=
  (h.along grip_init fun x e y hs hi =>
    hi.step (legal h e (by simp [hs])) ((conduct_run h).2 x e y hs) (ht e (by simp [hs]))).1

/-- The lobby is about to join the worker of `d`. -/
def Awaiting (d : ChId) (c : Config sig Srv St) : Prop := ∃ k, c.prog .lobby = .act (.joinWorker d) k

/-- The thread is about to lock a `pool_mtx`. -/
def Locking (t : Srv) (c : Config sig Srv St) : Prop := ∃ d k, c.prog t = .act (.lockPool d) k

theorem not_locking (h : (server P).Run (init P) tr c) {d : ChId}
    (hs : seen (Sys.own (.chan d) tr) = false) : ¬ Locking (.chan d) c := by
  rintro ⟨e, k, hp⟩
  have hseen : seen (Sys.own (.chan d) tr) = true := before_next h hp
  rw [hs] at hseen
  cases hseen

/-- A worker the lobby waits for inside `Channel::join` has set its flag in this tick. -/
theorem not_seen (h : (server P).Run (init P) tr c) (ht : ∀ e ∈ tr, ¬ ThrowsLocked e) {d : ChId}
    (hp : Awaiting d c) (hm : (c.st.chan d).mtx = some .lobby) :
    (c.st.chan d).stopFlag = true ∧ seen (Sys.own (.chan d) tr) = false := by
  have hl := grip h ht
  have hlink := (tied h).1.linked d
  obtain ⟨k, hk⟩ := hp
  obtain ⟨hfound, hraised⟩ : _ ∧ _ := before_next h hk
  have hflag := hlink.flagged hfound
  refine ⟨hflag, Bool.eq_false_iff.mpr fun hs => ?_⟩
  rcases (hlink.fresh hs).2 with hf | hr
  · rw [hflag] at hf
    cases hf
  · rw [hraised hl.clean ((hl.held d).mp hm)] at hr
    cases hr

/-- While the lobby waits for a running worker, nothing changes but that the worker goes on. -/
theorem waiting {d : ChId} {k : Unit → Code Unit} (h : (server P).Run (init P) tr c)
    (hp : c.prog .lobby = .act (.joinWorker d) k) (hf : (c.st.chan d).stopFlag = true)
    (hr : (c.st.chan d).worker = .running) (hs : seen (Sys.own (.chan d) tr) = false)
    {tr' : List Ev} {c' : Config sig Srv St} (h' : (server P).Onward c tr' c')
    (he : ∀ e ∈ tr', ¬ (e.tid = .chan d ∧ e.act = .exitThread)) :
    c'.prog .lobby = .act (.joinWorker d) k ∧ (c'.st.chan d).stopFlag = true ∧
      (c'.st.chan d).worker = .running ∧ seen (Sys.own (.chan d) (tr ++ tr')) = false := by
  induction h' with
  | here => exact ⟨hp, hf, hr, by simpa using hs⟩
  | @call tr' c' s' a k' t r hon hp' hx ih =>
    obtain ⟨hprog, hflag, hrun, hseen⟩ := ih fun e hm => he e (List.mem_append_left _ hm)
    have hpre := (legal ((hon.run h).call t r hp' hx) ⟨t, a, r, c'.st, s'⟩ (by simp)).pre
    rw [← List.append_assoc]
    cases t with
    | lobby =>
      -- the call is the one the lobby waits at, which a running worker does not admit
      rw [hprog] at hp'
      injection hp' with ha _
      subst ha
      have hended : (c'.st.chan d).worker = .ended := (need_eq_some.mp hx).1
      rw [hrun] at hended
      cases hended
    | chan e =>
      refine ⟨by simpa using hprog, ?_⟩
      by_cases hd : e = d
      · subst hd
        have hown := Sys.own_snoc_self (tr ++ tr') (⟨.chan e, a, r, c'.st, s'⟩ : Ev)
        have hexit : a ≠ .exitThread := fun ha => he ⟨.chan e, a, r, c'.st, s'⟩ (by simp) ⟨rfl, ha⟩
        rw [hown, seen_append, hseen, exec_stopFlag hx, exec_worker hx]
        cases a
        case loadStop g =>
          have hg : g = e := hpre
          subst hg
          obtain ⟨⟨hr', -⟩, -⟩ := need_eq_some.mp hx
          refine ⟨hflag, hrun, ?_⟩
          simp [seenStep, hr', hflag]
        case storeStop g b =>
          obtain ⟨-, rfl, rfl, -⟩ := hpre
          exact ⟨by simp [After.stopFlag], hrun, rfl⟩
        case exitThread => exact absurd rfl hexit
        case joinWorker | startWorker | newTracker | dropTracker => exact hpre.2.elim
        all_goals exact ⟨hflag, hrun, rfl⟩
      · obtain ⟨-, hsame⟩ := worker_elsewhere (c := d) hpre hx
        rw [Sys.own_snoc_ne _ (by simpa using hd), (hsame hd).1, (hsame hd).2]
        exact ⟨hflag, hrun, hseen⟩
  | @again tr' c' t hon hp' ih =>
    obtain ⟨hprog, hrest⟩ := ih he
    refine ⟨?_, hrest⟩
    have ht : Srv.lobby ≠ t := by
      rintro rfl
      rw [hprog] at hp'
      cases hp'
    simpa [Function.update_of_ne ht] using hprog

/-- **Restarting does not deadlock.** On every run on which nothing makes the lobby throw while it
holds a `pool_mtx`: where the lobby waits for the worker of a channel whose `pool_mtx` it holds, the
worker is not about to lock a `pool_mtx`, and is not going to be before its thread has ended; and the
lobby never holds two of these locks. -/
theorem restart_never_deadlocks (h : (server P).Run (init P) tr c)
    (ht : ∀ e ∈ tr, ¬ ThrowsLocked e) :
    (∀ d, Awaiting d c → (c.st.chan d).mtx = some .lobby →
      ¬ Locking (.chan d) c ∧
      ((c.st.chan d).worker = .running → ∀ tr' c', (server P).Onward c tr' c' →
        (∀ e ∈ tr', ¬ (e.tid = .chan d ∧ e.act = .exitThread)) → ¬ Locking (.chan d) c')) ∧
    ∀ d e, (c.st.chan d).mtx = some .lobby → (c.st.chan e).mtx = some .lobby → d = e := by
  refine ⟨fun d hp hm => ?_, fun d e hd he => ?_⟩
  · obtain ⟨hf, hs⟩ := not_seen h ht hp hm
    obtain ⟨k, hk⟩ := hp
    refine ⟨not_locking h hs, fun hr tr' c' h' he => ?_⟩
    exact not_locking (h'.run h) (waiting h hk hf hr hs h' he).2.2.2
  · have hl := grip h ht
    exact hl.one d ((hl.held d).mp hd) e ((hl.held e).mp he)

end

/-- A channel whose only client left, and that has set its flag but not ended, when another client
joins: the lobby is at the wait. -/
def rejoins : List (Turn Srv Input) :=
  settles 5 1 ++ [tick (.chan 1) (hangsUp 5), tick (.chan 1) {}, tick .lobby connects,
    ⟨.lobby, 18, sends 5 (joinFrame 1)⟩]

/-- The call a thread makes next. -/
def nextCall : Code Unit → Option Act
  | .act a _ => some a
  | _ => none

theorem nextCall_eq_some {p : Code Unit} {a : Act} :
    nextCall p = some a ↔ ∃ k, p = .act a k := by
  cases p with
  | ret | raise => simp [nextCall]
  | act b k =>
    constructor
    · intro h
      cases h
      exact ⟨k, rfl⟩
    · rintro ⟨k', h⟩
      injection h with hb _
      subst hb
      rfl

instance (d : ChId) (c : Config sig Srv St) : Decidable (Awaiting d c) :=
  decidable_of_iff (nextCall (c.prog .lobby) = some (.joinWorker d)) nextCall_eq_some

theorem restart_never_deadlocks_rejoin : ∃ tr c, (server sample).Run (init sample) tr c ∧
    Awaiting 1 c ∧ (c.st.chan 1).worker = .running ∧ ¬ Locking (.chan 1) c := by
  obtain ⟨tr, c, hr, hw, hm, hrun, hf⟩ := exists_run (P := sample)
    (p := fun tr c => Awaiting 1 c ∧ (c.st.chan 1).mtx = some .lobby ∧
      (c.st.chan 1).worker = .running ∧ ∀ e ∈ tr, ¬ Fails ⟨e.act, e.res⟩) rejoins (by decide +kernel)
  exact ⟨tr, c, hr, hw, hrun,
    ((restart_never_deadlocks hr fun e he ht => hf e he ht.2.1).1 1 hw hm).1⟩

end ChatChannel
