import ChatChannel.Proof.Restart

/-!
# Who is waiting to be taken in

A client in the `join_pool` of a channel waits for the channel's worker. The worker decides to stop and the
lobby to start another; the new thread reads a flag that the lobby clears only after it has started it. As
long as no new thread is that fast, a channel with someone in its pool has a worker that goes through the pool before
it ends. A thread that reads the old flag ends at once, the flag is clear, and nobody starts another.
-/

set_option autoImplicit false

namespace ChatChannel

open Conc

/-! ## The race -/

/-- The thread of `d` has not looked at the flag since it was started. -/
def unreadStep (d : ChId) (b : Bool) : Ev → Bool
  | ⟨_, .startWorker c, true, _, _⟩ => if c = d then true else b
  | ⟨.chan c, .loadStop _, _, _, _⟩ => if c = d then false else b
  | _ => b

def unread (d : ChId) (x : List Ev) : Bool := x.foldl (unreadStep d) false

theorem unread_append (d : ChId) (x : List Ev) (e : Ev) :
    unread d (x ++ [e]) = unreadStep d (unread d x) e := by
  simp [unread, List.foldl_append]

/-- If the event is the lobby clearing a flag, the thread it has started for the channel has not looked
at the flag yet. -/
def ReadLater (x : List Ev) (e : Ev) : Prop := ∀ d, e.tid = .lobby → e.act = .storeStop d false →
  (e.pre.chan d).stopFlag = true → unread d x = true

/-- The lobby always clears the flag before the new thread looks at it. -/
def ClearedInTime (tr : List Ev) : Prop := ∀ x e y, tr = x ++ e :: y → ReadLater x e

/-- If someone is waiting in the pool of `d`, its thread runs and will take the pool before it ends. -/
def Attended (P : Params) (d : ChId) (c : Config sig Srv St) : Prop :=
  (c.st.chan d).joinPool ≠ [] → (c.st.chan d).worker = .running ∧
    ∀ tr' c', (server P).Onward c tr' c' → ∀ x e y, tr' = x ++ e :: y →
      e.tid = .chan d → e.act = .exitThread → ∃ f ∈ x, f.tid = .chan d ∧ f.act = .takeJoinPool

/-! ## The invariant -/

/-- A thread that the lobby has started, for a channel whose flag is clear or that has not looked at the
flag, is there to stay; and there is one if someone is waiting. -/
structure Watched (w : Note) (unread flag : Bool) (k : Worker) (pool : List (Fd × MessageReqDto))
    (h : Hist sig) : Prop where
  kept : w.started = true → flag = false → k = .running ∧ ¬ Leaving h
  new : w.started = true → unread = true → k = .running ∧ ¬ Leaving h
  waiting : pool ≠ [] → w.started = true

/-- The same of a channel on a run. -/
abbrev WatchedOn (d : ChId) (x : List Ev) (s : St) : Prop :=
  Watched (noteAfter d (Sys.own .lobby x)) (unread d x) (s.chan d).stopFlag (s.chan d).worker
    (s.chan d).joinPool (Sys.own (.chan d) x)

section

variable {P : Params} {d : ChId} {x : List Ev} {a : Act} {r : Res a} {s s' : St}

theorem watchedOn_init : WatchedOn d [] (init P) :=
  ⟨by simp [noteAfter, Note.blank], by simp [unread], by simp [init, Chan.fresh]⟩

theorem WatchedOn.lobby (hi : WatchedOn d x s) (ht : Tied x s) (hw : Wf s) (hp : LobbyPre P s a)
    (hb : lobbyContract.before a (Sys.own .lobby x)) (hx : exec .lobby a r s = some s')
    (hc : a = .storeStop d false → (s.chan d).stopFlag = true → unread d x = true) :
    WatchedOn d (x ++ [⟨.lobby, a, r, s, s'⟩]) s' := by
  have hlink := ht.linked d
  have hown := Sys.own_snoc_self x (⟨.lobby, a, r, s, s'⟩ : Ev)
  have hother : Sys.own (.chan d) (x ++ [⟨.lobby, a, r, s, s'⟩]) = Sys.own (.chan d) x :=
    Sys.own_snoc_ne x (by simp)
  unfold WatchedOn
  rw [hown, hother, noteAfter_append, unread_append, exec_stopFlag hx, exec_worker hx,
    exec_joinPool hx]
  have hnew (hr : (s.chan d).worker ≠ .running) : ¬ Leaving (Sys.own (.chan d) x) :=
    fun h => hr (hlink.ending h)
  cases a
  case loadStop e =>
    simp only [noteStep, unreadStep, After.stopFlag, After.worker, After.joinPool]
    split <;> exact ⟨hi.kept, hi.new, hi.waiting⟩
  case storeStop e b =>
    simp only [noteStep, unreadStep, After.stopFlag, After.worker, After.joinPool, eq_comm (a := d)]
    split
    · rename_i he
      subst he
      refine ⟨fun hs hf => ?_, hi.new, hi.waiting⟩
      subst hf
      cases hflag : (s.chan e).stopFlag with
      | true => exact hi.new hs (hc rfl hflag)
      | false => exact hi.kept hs hflag
    · exact hi
  case startWorker e =>
    cases r with
    | false => exact hi
    | true =>
      simp only [noteStep, unreadStep, After.stopFlag, After.worker, After.joinPool,
        eq_comm (a := d)]
      split
      · rename_i he
        subst he
        have hleft := hnew (by simp [hp.1])
        exact ⟨fun _ _ => ⟨rfl, hleft⟩, fun _ _ => ⟨rfl, hleft⟩, fun _ => rfl⟩
      · exact hi
  case joinWorker e =>
    simp only [noteStep, unreadStep, After.stopFlag, After.worker, After.joinPool, eq_comm (a := d)]
    split
    · rename_i he
      subst he
      -- the lobby found the flag set, so the channel is empty
      have hempty := (hw.stopped e (hlink.flagged hb.1)).joinPool
      exact ⟨by simp, by simp, fun h => absurd hempty h⟩
    · exact hi
  case newTracker e m =>
    simp only [noteStep, unreadStep, After.stopFlag, After.worker, After.joinPool, eq_comm (a := d)]
    split
    · exact ⟨by simp [Note.blank], by simp [Note.blank], by simp⟩
    · exact hi
  case dropTracker e =>
    simp only [noteStep, unreadStep, After.stopFlag, After.worker, After.joinPool, eq_comm (a := d)]
    split
    · exact ⟨by simp, by simp, by simp⟩
    · exact hi
  case insertChannel e | eraseChannel e | getEfd e =>
    simp only [noteStep, unreadStep, After.stopFlag, After.worker, After.joinPool]
    split <;> exact ⟨hi.kept, hi.new, hi.waiting⟩
  case emplaceJoin e n m =>
    refine ⟨hi.kept, hi.new, fun h => ?_⟩
    by_cases he : d = e
    · subst he
      -- the channel is in the map, its flag is clear and the lobby is not destroying it
      rcases hlink.served hp.2.2.1 with hs | hf | hr
      · exact hs
      · rw [hp.2.1] at hf
        cases hf
      · rw [hb] at hr
        cases hr
    · simp only [After.joinPool, if_neg he] at h
      exact hi.waiting h
  case exitThread | takeJoinPool => exact hp.elim
  all_goals exact hi

theorem WatchedOn.worker {c : ChId} (hi : WatchedOn d x s) (hp : Pre P (.chan c) a s)
    (hb : workerContract.before a (Sys.own (.chan c) x)) (hx : exec (.chan c) a r s = some s') :
    WatchedOn d (x ++ [⟨.chan c, a, r, s, s'⟩]) s' := by
  have hlobby : Sys.own .lobby (x ++ [⟨.chan c, a, r, s, s'⟩]) = Sys.own .lobby x :=
    Sys.own_snoc_ne x (by simp)
  unfold WatchedOn
  by_cases hd : c = d
  · subst hd
    have hown := Sys.own_snoc_self x (⟨.chan c, a, r, s, s'⟩ : Ev)
    rw [hlobby, hown, unread_append, exec_stopFlag hx, exec_worker hx, exec_joinPool hx]
    cases a
    case loadStop e =>
      have he : e = c := hp
      subst he
      obtain ⟨⟨hr, hrun⟩, -⟩ := need_eq_some.mp hx
      simp only [unreadStep, After.stopFlag, After.worker, After.joinPool, if_true]
      refine ⟨fun _ hf => ⟨hrun rfl, fun h => ?_⟩, by simp, hi.waiting⟩
      obtain ⟨g, hg⟩ := leaving_append.mp h
      cases hg
      rw [← hr] at hf
      cases hf
    case storeStop e b =>
      obtain ⟨-, rfl, rfl, -⟩ := hp
      simp only [unreadStep, After.stopFlag, After.worker, After.joinPool, if_true]
      refine ⟨by simp, fun hs hu => ⟨(hi.new hs hu).1, fun h => ?_⟩, hi.waiting⟩
      obtain ⟨g, hg⟩ := leaving_append.mp h
      cases hg
    case exitThread =>
      -- a thread that ends has just found its flag set, which one that stays has not
      simp only [unreadStep, After.stopFlag, After.worker, After.joinPool]
      exact ⟨fun hs hf => absurd hb (hi.kept hs hf).2, fun hs hu => absurd hb (hi.new hs hu).2,
        hi.waiting⟩
    case takeJoinPool =>
      simp only [unreadStep, After.stopFlag, After.worker, After.joinPool, own, if_true]
      refine ⟨fun hs hf => ⟨(hi.kept hs hf).1, fun h => ?_⟩,
        fun hs hu => ⟨(hi.new hs hu).1, fun h => ?_⟩, by simp⟩
      all_goals
        obtain ⟨g, hg⟩ := leaving_append.mp h
        cases hg
    case joinWorker | startWorker | newTracker | dropTracker | emplaceJoin => exact hp.2.elim
    all_goals
      refine ⟨fun hs hf => ⟨(hi.kept hs hf).1, fun h => ?_⟩,
        fun hs hu => ⟨(hi.new hs hu).1, fun h => ?_⟩, hi.waiting⟩
      all_goals
        obtain ⟨g, hg⟩ := leaving_append.mp h
        cases hg
  · obtain ⟨-, hsame⟩ := worker_elsewhere (c := d) hp hx
    have hunread : unreadStep d (unread d x) ⟨.chan c, a, r, s, s'⟩ = unread d x := by
      cases a
      case loadStop e => simp [unreadStep, hd]
      case startWorker e => exact hp.2.elim
      all_goals rfl
    have hpool : (s'.chan d).joinPool = (s.chan d).joinPool := by
      rw [exec_joinPool hx]
      cases a
      case takeJoinPool => simp [After.joinPool, own, Ne.symm hd]
      case emplaceJoin | newTracker | dropTracker => exact hp.2.elim
      all_goals rfl
    rw [hlobby, Sys.own_snoc_ne x (by simpa using hd), unread_append, hunread, (hsame hd).1,
      (hsame hd).2, hpool]
    exact hi

end

/-! ## Runs -/

section

variable {P : Params} {d : ChId} {tr : List Ev} {c : Config sig Srv St}

theorem watchedOn (h : (server P).Run (init P) tr c) (hc : ClearedInTime tr) :
    WatchedOn d tr c.st := by
  refine (h.along watchedOn_init fun x e y hs hi => ?_).1
  have hl := legal h e (by simp [hs])
  have ht := (tied h).2 x e y hs
  have hb := (conduct_run h).2 x e y hs
  obtain ⟨t, a, r, s, s'⟩ := e
  cases t with
  | lobby => exact hi.lobby ht hl.wf hl.pre hb hl.exec fun ha hf => hc x _ y hs d rfl ha hf
  | chan b => exact hi.worker hl.pre hb hl.exec

/-- Someone waits, and the thread runs and has not just found the flag set. -/
structure Waited (d : ChId) (x : List Ev) (s : St) : Prop where
  pool : (s.chan d).joinPool ≠ []
  running : (s.chan d).worker = .running
  staying : ¬ Leaving (Sys.own (.chan d) x)

/-- Until the pool is taken, that does not change. -/
theorem Waited.step {x : List Ev} {e : Ev} (hi : Waited d x e.pre) (hl : Legal P e)
    (hb : (contract e.tid).before e.act (Sys.own e.tid x))
    (he : ¬ (e.tid = .chan d ∧ e.act = .takeJoinPool)) : Waited d (x ++ [e]) e.post := by
  obtain ⟨t, a, r, s, s'⟩ := e
  obtain ⟨hw, hp, hx⟩ := hl
  have hrun : (s.chan d).worker = .running := hi.running
  have hpool : (s.chan d).joinPool ≠ [] := hi.pool
  cases t with
  | lobby =>
    have hown : Sys.own (.chan d) (x ++ [⟨.lobby, a, r, s, s'⟩]) = Sys.own (.chan d) x :=
      Sys.own_snoc_ne x (by simp)
    refine ⟨?_, ?_, by rw [hown]; exact hi.staying⟩
    · rw [exec_joinPool hx]
      cases a
      case emplaceJoin f n m =>
        simp only [After.joinPool]
        split
        · unfold emplace
          split
          · exact hpool
          · simp
        · exact hpool
      case newTracker f m =>
        by_cases hf : d = f
        · subst hf
          exact absurd (hrun.symm.trans hp.2.1) (by simp)
        · simpa [After.joinPool, hf] using hpool
      case dropTracker f =>
        by_cases hf : d = f
        · subst hf
          exact absurd (hrun.symm.trans hp.1) (by simp)
        · simpa [After.joinPool, hf] using hpool
      case takeJoinPool => exact hp.elim
      all_goals exact hpool
    · rw [exec_worker hx]
      cases a
      case joinWorker f =>
        have hended : (s.chan f).worker = .ended := (need_eq_some.mp hx).1
        by_cases hf : d = f
        · subst hf
          exact absurd (hrun.symm.trans hended) (by simp)
        · simpa [After.worker, hf] using hrun
      case startWorker f =>
        cases r with
        | false => exact hrun
        | true =>
          simp only [After.worker]
          split
          · rfl
          · exact hrun
      case newTracker f m =>
        by_cases hf : d = f
        · subst hf
          exact absurd (hrun.symm.trans hp.2.1) (by simp)
        · simpa [After.worker, hf] using hrun
      case dropTracker f =>
        by_cases hf : d = f
        · subst hf
          exact absurd (hrun.symm.trans hp.1) (by simp)
        · simpa [After.worker, hf] using hrun
      case exitThread => exact hp.elim
      all_goals exact hrun
  | chan b =>
    have hjoin : (s'.chan d).joinPool = (s.chan d).joinPool := by
      rw [exec_joinPool hx]
      cases a
      case takeJoinPool =>
        have hd : d ≠ b := fun h => he ⟨by rw [h], rfl⟩
        simp [After.joinPool, own, hd]
      case emplaceJoin | newTracker | dropTracker => exact hp.2.elim
      all_goals rfl
    by_cases hd : b = d
    · subst hd
      have hown := Sys.own_snoc_self x (⟨.chan b, a, r, s, s'⟩ : Ev)
      have hclear : (s.chan b).stopFlag = false :=
        Bool.eq_false_iff.mpr fun hf => hpool (hw.stopped b hf).joinPool
      have hexit : a ≠ .exitThread := by
        rintro rfl
        exact hi.staying hb
      refine ⟨by rw [hjoin]; exact hpool, ?_, ?_⟩
      · rw [exec_worker hx]
        cases a
        case exitThread => exact absurd rfl hexit
        case joinWorker | startWorker | newTracker | dropTracker => exact hp.2.elim
        all_goals exact hrun
      · rw [hown, leaving_append]
        rintro ⟨g, hg⟩
        cases hg
        have hg : g = b := hp
        subst hg
        have hr : true = (s.chan g).stopFlag := (need_eq_some.mp hx).1.1
        rw [hclear] at hr
        cases hr
    · obtain ⟨-, hsame⟩ := worker_elsewhere (c := d) hp hx
      have hown : Sys.own (.chan d) (x ++ [⟨.chan b, a, r, s, s'⟩]) = Sys.own (.chan d) x :=
        Sys.own_snoc_ne x (by simpa using hd)
      exact ⟨by rw [hjoin]; exact hpool, by rw [(hsame hd).2]; exact hrun,
        by rw [hown]; exact hi.staying⟩

/-- A thread that someone waits for takes the pool before it ends. -/
theorem Waited.onward (h : (server P).Run (init P) tr c) (hi : Waited d tr c.st)
    {tr' : List Ev} {c' : Config sig Srv St} (h' : (server P).Onward c tr' c') :
    ((∀ f ∈ tr', ¬ (f.tid = .chan d ∧ f.act = .takeJoinPool)) → Waited d (tr ++ tr') c'.st) ∧
      ∀ x e y, tr' = x ++ e :: y → e.tid = .chan d → e.act = .exitThread →
        ∃ f ∈ x, f.tid = .chan d ∧ f.act = .takeJoinPool := by
  induction h' with
  | here => exact ⟨fun _ => by simpa using hi, fun x e y hs => absurd hs (by simp)⟩
  | @call tr' c' s' a k t r hon hp hx ih =>
    obtain ⟨hwaited, hended⟩ := ih
    have hlong := (hon.run h).call t r hp hx
    have hl := legal hlong ⟨t, a, r, c'.st, s'⟩ (by simp)
    have hb := (conduct_run hlong).2 _ _ [] rfl
    constructor
    · intro hf
      rw [← List.append_assoc]
      exact (hwaited fun f hm => hf f (List.mem_append_left _ hm)).step hl hb (hf _ (by simp))
    · intro x e y hs ht ha
      rcases Sys.split_snoc hs with ⟨-, rfl, rfl⟩ | ⟨z, -, hz⟩
      · by_contra hnone
        have hw := hwaited fun f hm hf => hnone ⟨f, hm, hf⟩
        obtain rfl : t = .chan d := ht
        obtain rfl : a = .exitThread := ha
        exact hw.staying hb
      · exact hended x e z hz ht ha
  | again t _ _ ih => exact ih

/-- **A channel with pending joiners has a worker**, on every run on which no new thread looks at the
flag of its channel before the lobby has cleared it. -/
theorem pending_attended (h : (server P).Run (init P) tr c) (hc : ClearedInTime tr) (d : ChId) :
    Attended P d c := by
  intro hpool
  have hw := (server_verified h).inv
  have hclear : (c.st.chan d).stopFlag = false :=
    Bool.eq_false_iff.mpr fun hf => hpool (hw.stopped d hf).joinPool
  have hon := watchedOn (d := d) h hc
  obtain ⟨hrun, hstay⟩ := hon.kept (hon.waiting hpool) hclear
  exact ⟨hrun, fun tr' c' h' => (Waited.onward h ⟨hpool, hrun, hstay⟩ h').2⟩

end

instance (x : List Ev) (e : Ev) : Decidable (ReadLater x e) := by
  obtain ⟨t, a, r, s, s'⟩ := e
  induction a using Act.casesOn
  case storeStop d b =>
    refine decidable_of_iff
      (t = .lobby → b = false → (s.chan d).stopFlag = true → unread d x = true) ?_
    exact ⟨fun h g ht hb hf => by cases hb; exact h ht rfl hf,
      fun h ht hb hf => h d ht (by rw [hb]) hf⟩
  all_goals exact isTrue fun d _ h => by cases h

theorem clearedInTime_iff {tr : List Ev} :
    ClearedInTime tr ↔ ∀ i : Fin tr.length, ReadLater (tr.take i) tr[i] := by
  constructor
  · intro h i
    exact h _ _ (tr.drop (i + 1)) (by simp)
  · rintro h x e y rfl
    have hi := h ⟨x.length, by simp⟩
    simpa using hi

instance (tr : List Ev) : Decidable (ClearedInTime tr) := decidable_of_iff _ clearedInTime_iff.symm

/-- A channel stops and a client joins it again. -/
theorem pending_attended_again : ∃ tr c, (server sample).Run (init sample) tr c ∧
    (c.st.chan 1).joinPool ≠ [] ∧ Attended sample 1 c := by
  obtain ⟨tr, c, hr, hp, hc⟩ := exists_run (P := sample)
    (p := fun tr c => (c.st.chan 1).joinPool ≠ [] ∧ ClearedInTime tr)
    (settles 5 1 ++ [tick (.chan 1) (hangsUp 5), tick (.chan 1) {}, tick (.chan 1) {},
      tick .lobby connects, tick .lobby (sends 5 (joinFrame 1))]) (by decide +kernel)
  exact ⟨tr, c, hr, hp, pending_attended hr hc 1⟩

/-- A channel stops, a client joins it, and the new thread looks at the flag before the lobby has
cleared it. -/
def overtakes : List (Turn Srv Input) :=
  settles 5 1 ++ [tick (.chan 1) (hangsUp 5), tick (.chan 1) {}, tick (.chan 1) {},
    tick .lobby connects, ⟨.lobby, 20, sends 5 (joinFrame 1)⟩, ⟨.chan 1, 1, {}⟩, tick .lobby {},
    tick (.chan 1) {}]

/-- The client waits, the thread has ended, and the lobby is at the beginning of its loop. -/
theorem joiner_abandoned : ∃ tr c, (server sample).Run (init sample) tr c ∧
    (∃ k, c.prog .lobby = .act .loadRunning k) ∧ (c.st.chan 1).joinPool ≠ [] ∧
      (c.st.chan 1).worker = .ended := by
  obtain ⟨tr, c, hr, hn, hrest⟩ := exists_run (P := sample)
    (p := fun _ c => nextCall (c.prog .lobby) = some .loadRunning ∧ (c.st.chan 1).joinPool ≠ [] ∧
      (c.st.chan 1).worker = .ended) overtakes (by decide +kernel)
  exact ⟨tr, c, hr, nextCall_eq_some.mp hn, hrest⟩

end ChatChannel
