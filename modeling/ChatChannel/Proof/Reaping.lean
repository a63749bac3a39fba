import ChatChannel.Proof.Restart

/-!
# Reaping a channel

A channel whose flag is set is empty: the worker sets it in its critical section when nobody is left, and
the lobby admits nobody before it has cleared it. So the channels that `check_channels` destroys are empty, and
their destructors close no more than the epoll instance and the listening socket. Whether these
numbers still stand for what they did is another matter (`Rooted`): a `resolve_deletion` that closes a
descriptor which is no client's may have given them to a client.
-/

set_option autoImplicit false

namespace ChatChannel

open Conc

/-! ## What is behind a number -/

/-- A description without its interest list. -/
def File.strip : File → File
  | .epoll _ => .epoll ∅
  | f => f

theorem strip_forget (n : Fd) (f : File) : (f.forget n).strip = f.strip := by cases f <;> rfl

theorem strip_mapInterest (g : Finset Fd → Finset Fd) (f : File) :
    (f.mapInterest g).strip = f.strip := by cases f <;> rfl

/-- What kind of description is behind a number. -/
def St.kind (s : St) (n : Fd) : Option File := (s.file n).map File.strip

section

variable {P : Params} {t : Srv} {a : Act} {r : Res a} {s s' : St}

theorem kind_closeFile (m n : Fd) : (s.closeFile m).kind n = if n = m then none else s.kind n := by
  unfold St.kind
  rw [St.closeFile_file, Function.update_apply]
  split
  · rfl
  · rw [Option.map_map]
    congr 1
    exact funext fun f => strip_forget m f

theorem kind_onInterest (v : Srv) (g : Finset Fd → Finset Fd) (n : Fd) :
    (s.onInterest v g).kind n = s.kind n := by
  unfold St.kind
  rw [St.onInterest_file, Function.update_apply]
  split
  · rename_i h
    rw [h, Option.map_map]
    congr 1
    exact funext fun f => strip_mapInterest g f
  · rfl

/-- What is behind a number stays there until the number is closed, but a socket may begin to
listen. -/
theorem kind_after (h : exec t a r s = some s') {n : Fd} (hn : s.kind n ≠ none) :
    s'.kind n = s.kind n ∨ a = .close n ∨ (a = .closeListener ∧ s.listenFd = n) ∨
      (s.listenFd = n ∧ s.kind n = some .socket ∧ s'.kind n = some (.listener s.nextListener)) := by
  have hopen {m : Fd} {f : File} (hfree : s.file m = none) :
      (Function.update s.file m (some f) n).map File.strip = s.kind n := by
    have hne : n ≠ m := by
      rintro rfl
      exact hn (by rw [St.kind, hfree]; rfl)
    rw [Function.update_of_ne hne]
    rfl
  unfold St.kind at hopen ⊢
  rw [exec_file h]
  cases a
  case close m =>
    by_cases hm : n = m
    · exact .inr (.inl (by rw [hm]))
    · exact .inl ((kind_closeFile m n).trans (if_neg hm))
  case closeListener =>
    by_cases hm : n = s.listenFd
    · exact .inr (.inr (.inl ⟨rfl, hm.symm⟩))
    · exact .inl ((kind_closeFile _ n).trans (if_neg hm))
  case accept =>
    cases r with
    | none => exact .inl rfl
    | some m => exact .inl (hopen (need_eq_some.mp h).1.2.2)
  case listenSocket =>
    cases r with
    | none => exact .inl rfl
    | some m => exact .inl (hopen (need_eq_some.mp h).1.2)
  case epollCreate c =>
    cases r with
    | none => exact .inl rfl
    | some m => exact .inl (hopen (need_eq_some.mp h).1.2)
  case bindListen =>
    cases r with
    | false => exact .inl rfl
    | true =>
      have hsock : s.file s.listenFd = some .socket := (need_eq_some.mp h).1
      by_cases hm : s.listenFd = n
      · subst hm
        exact .inr (.inr (.inr ⟨rfl, by rw [hsock]; rfl, by simp [After.file, File.strip]⟩))
      · exact .inl (by simp [After.file, Ne.symm hm])
  case addClient m => cases r <;> first | exact .inl rfl | exact .inl (kind_onInterest _ _ n)
  case deleteClient m => cases r <;> first | exact .inl rfl | exact .inl (kind_onInterest _ _ n)
  case epollAddListener c => cases r <;> first | exact .inl rfl | exact .inl (kind_onInterest _ _ n)
  case epollDel c m => exact .inl (kind_onInterest _ _ n)
  all_goals exact .inl rfl

/-- Only numbers from zero on are opened. -/
theorem kind_before (h : exec t a r s = some s') {n : Fd} (hn : s'.kind n ≠ none) :
    s.kind n ≠ none ∨ 0 ≤ n := by
  have hopen {m : Fd} {f : File} (hm : 0 ≤ m)
      (hk : (Function.update s.file m (some f) n).map File.strip ≠ none) :
      s.kind n ≠ none ∨ 0 ≤ n := by
    by_cases he : n = m
    · exact .inr (he ▸ hm)
    · rw [Function.update_of_ne he] at hk
      exact .inl hk
  have hclose {m : Fd} (hk : (s.closeFile m).kind n ≠ none) : s.kind n ≠ none ∨ 0 ≤ n := by
    rw [kind_closeFile] at hk
    split at hk
    · exact absurd rfl hk
    · exact .inl hk
  have hinterest {v : Srv} {g : Finset Fd → Finset Fd} (hk : (s.onInterest v g).kind n ≠ none) :
      s.kind n ≠ none ∨ 0 ≤ n := by
    rw [kind_onInterest] at hk
    exact .inl hk
  unfold St.kind at hn hopen ⊢
  rw [exec_file h] at hn
  cases a
  case close m => exact hclose hn
  case closeListener => exact hclose hn
  case accept =>
    cases r with
    | none => exact .inl hn
    | some m => exact hopen (need_eq_some.mp h).1.2.1 hn
  case listenSocket =>
    cases r with
    | none => exact .inl hn
    | some m => exact hopen (need_eq_some.mp h).1.1 hn
  case epollCreate c =>
    cases r with
    | none => exact .inl hn
    | some m => exact hopen (need_eq_some.mp h).1.1 hn
  case bindListen =>
    cases r with
    | false => exact .inl hn
    | true =>
      have hsock : s.file s.listenFd = some .socket := (need_eq_some.mp h).1
      by_cases hm : n = s.listenFd
      · exact .inl (by simp [hm, hsock])
      · exact .inl (by simpa [After.file, Function.update_of_ne hm] using hn)
  case addClient m => cases r <;> first | exact .inl hn | exact hinterest hn
  case deleteClient m => cases r <;> first | exact .inl hn | exact hinterest hn
  case epollAddListener c => cases r <;> first | exact .inl hn | exact hinterest hn
  case epollDel c m => exact hinterest hn
  all_goals exact .inl hn

end

/-! ## The numbers of the epoll instances and of the listening socket -/

/-- A `resolve_deletion` closes something that is not a connection. -/
def Astray (e : Ev) : Prop := ∃ n, e.act = .close n ∧
  (e.pre.base e.tid).aux.cursor = some (n, .doomed) ∧ ∃ f, e.pre.file n = some f ∧ ∀ k, f ≠ .conn k

/-- The channel's object has an epoll instance that the lobby has not closed. -/
def Equipped (c : ChId) (s : St) : Prop :=
  (s.base (.chan c)).efd ≠ fdErr ∧ (s.base .lobby).aux.scrapped ≠ some (c, true)

/-- The numbers the servers keep still stand for what they were opened for. -/
structure Rooted (x : List Ev) (s : St) : Prop where
  real : ∀ n, s.kind n ≠ none → 0 ≤ n
  listener : s.listenFd ≠ fdErr →
    s.kind s.listenFd = some .socket ∨ ∃ i, s.kind s.listenFd = some (.listener i)
  epoll : ∀ c, Equipped c s → s.kind (s.base (.chan c)).efd = some (.epoll ∅)
  distinct : ∀ c d, Equipped c s → Equipped d s →
    (s.base (.chan c)).efd = (s.base (.chan d)).efd → c = d
  bare : ∀ c b, (s.base .lobby).aux.scrapped = some (c, b) →
    (noteAfter c (Sys.own .lobby x)).bare = true

section

variable {P : Params} {x : List Ev} {t : Srv} {a : Act} {r : Res a} {s s' : St}

theorem rooted_init : Rooted [] (init P) where
  real := by
    intro n hn
    by_contra hneg
    have h3 : n ≠ lobbyListener := by rintro rfl; exact hneg (by decide)
    have h4 : n ≠ lobbyEpoll := by rintro rfl; exact hneg (by decide)
    simp [St.kind, init, h3, h4, hneg] at hn
  listener := fun _ => .inr ⟨0, by simp [St.kind, init, File.strip]⟩
  epoll := fun c hc => absurd rfl hc.1
  distinct := fun c _ hc => absurd rfl hc.1
  bare := fun c b h => by simp [init, Base.fresh, Aux.fresh] at h

/-- What a `close` finds behind the number, if it does not go astray: a connection or nothing; or it
is the lobby that closes an epoll instance. -/
theorem closed_cases {n : Fd} {r : Res (.close n)} (hp : Pre P t (.close n) s)
    (ha : ¬ Astray ⟨t, .close n, r, s, s'⟩) :
    ((s.base t).aux.cursor = some (n, .doomed) ∧
        (s.kind n = none ∨ ∃ k, s.kind n = some (.conn k))) ∨
      (t = .lobby ∧ ∃ c, n = (s.base (.chan c)).efd ∧ Equipped c s ∧
        (s.base .lobby).aux.scrapped = some (c, false)) := by
  have hdoom (hc : (s.base t).aux.cursor = some (n, .doomed)) :
      s.kind n = none ∨ ∃ k, s.kind n = some (.conn k) := by
    unfold St.kind
    cases hf : s.file n with
    | none => exact .inl rfl
    | some f =>
      refine .inr ?_
      by_contra hk
      refine ha ⟨n, rfl, hc, f, hf, fun k hfk => hk ⟨k, ?_⟩⟩
      rw [hfk]
      rfl
  cases t with
  | lobby =>
    rcases hp with hc | ⟨-, c, hn, herr, -, hscrap, -⟩
    · exact .inl ⟨hc, hdoom hc⟩
    · exact .inr ⟨rfl, c, hn, ⟨hn ▸ herr, by simp [hscrap]⟩, hscrap⟩
  | chan d => exact .inl ⟨hp.2, hdoom hp.2⟩

/-- An instance that is there after a call was there before, or is new. -/
theorem Rooted.before {c : ChId} (hi : Rooted x s) (hp : Pre P t a s)
    (hb : (contract t).before a (Sys.own t x)) (hx : exec t a r s = some s')
    (hc : Equipped c s') :
    (Equipped c s ∧ (s'.base (.chan c)).efd = (s.base (.chan c)).efd) ∨
      (a = .epollCreate c ∧ s.kind (s'.base (.chan c)).efd = none ∧
        s'.kind (s'.base (.chan c)).efd = some (.epoll ∅)) := by
  obtain ⟨hefd, hscrap⟩ := hc
  rw [exec_efd hx] at hefd
  rw [exec_scrapped hx] at hscrap
  have hold : After.efd s (.chan c) a r = (s.base (.chan c)).efd →
      (s.base .lobby).aux.scrapped ≠ some (c, true) →
      Equipped c s ∧ (s'.base (.chan c)).efd = (s.base (.chan c)).efd := fun he hs =>
    ⟨⟨by rwa [he] at hefd, hs⟩, by rw [exec_efd hx, he]⟩
  cases a
  case epollCreate d =>
    cases r with
    | none => exact .inl (hold rfl hscrap)
    | some e =>
      by_cases hd : d = c
      · subst hd
        refine .inr ?_
        have hnew : (s'.base (.chan d)).efd = e := by rw [exec_efd hx]; simp [After.efd]
        have hfree : s.file e = none := (need_eq_some.mp hx).1.2
        refine ⟨rfl, by simp [St.kind, hnew, hfree], ?_⟩
        rw [hnew, St.kind, exec_file hx]
        simp [After.file, File.strip]
      · exact .inl (hold (by simp [After.efd, Ne.symm hd]) hscrap)
  case newTracker d m =>
    by_cases hd : d = c
    · simp [After.efd, hd] at hefd
    · exact .inl (hold (by simp [After.efd, Ne.symm hd]) (by simpa [After.scrapped] using hscrap))
  case dropTracker d =>
    by_cases hd : d = c
    · simp [After.efd, hd] at hefd
    · refine .inl (hold (by simp [After.efd, Ne.symm hd]) fun hs => ?_)
      cases t with
      | lobby =>
        have hbare := hi.bare c true hs
        rw [hb.2.2 c (Ne.symm hd)] at hbare
        cases hbare
      | chan g => exact hp.2
  case getEfd d =>
    refine .inl (hold rfl fun hs => ?_)
    cases t with
    | lobby =>
      have hbare := hi.bare c true hs
      rw [hb c] at hbare
      cases hbare
    | chan g => exact hp.2
  case close n =>
    refine .inl (hold rfl fun hs => hscrap ?_)
    simp only [After.scrapped, hs]
    split <;> rfl
  all_goals exact .inl (hold rfl hscrap)

/-- An instance stays open as long as the lobby does not close it. -/
theorem Rooted.epoll_kept {c : ChId} (hi : Rooted x s) (hp : Pre P t a s)
    (hx : exec t a r s = some s') (ha : ¬ Astray ⟨t, a, r, s, s'⟩) (hc : Equipped c s)
    (hc' : Equipped c s') : s'.kind (s.base (.chan c)).efd = some (.epoll ∅) := by
  have hk := hi.epoll c hc
  rcases kind_after hx (n := (s.base (.chan c)).efd) (by simp [hk]) with
    h | rfl | ⟨-, hl⟩ | ⟨-, hs, -⟩
  · rw [h, hk]
  · rcases closed_cases hp ha with ⟨-, hnone | ⟨k, hconn⟩⟩ | ⟨rfl, d, hn, hd, hscrap⟩
    · rw [hk] at hnone
      cases hnone
    · rw [hk] at hconn
      cases hconn
    · have hcd := hi.distinct c d hc hd hn
      subst hcd
      refine absurd ?_ hc'.2
      rw [exec_scrapped hx]
      simp [After.scrapped, hscrap]
  · -- the listening socket is no epoll instance
    have hlisten := hi.listener (hl ▸ hc.1)
    rw [hl, hk] at hlisten
    rcases hlisten with h | ⟨i, h⟩ <;> cases h
  · rw [hk] at hs
    cases hs

theorem Rooted.listener_step (hi : Rooted x s) (hp : Pre P t a s) (hx : exec t a r s = some s')
    (ha : ¬ Astray ⟨t, a, r, s, s'⟩) (hl : s'.listenFd ≠ fdErr) :
    s'.kind s'.listenFd = some .socket ∨ ∃ i, s'.kind s'.listenFd = some (.listener i) := by
  have hkept (hsame : s'.listenFd = s.listenFd) (hne : a ≠ .closeListener) :
      s'.kind s'.listenFd = some .socket ∨ ∃ i, s'.kind s'.listenFd = some (.listener i) := by
    rw [hsame] at hl ⊢
    have hold := hi.listener hl
    have hn : s.kind s.listenFd ≠ none := by
      rcases hold with h | ⟨i, h⟩ <;> simp [h]
    rcases kind_after hx hn with h | rfl | ⟨h, -⟩ | ⟨-, -, h⟩
    · rw [h]
      exact hold
    · exfalso
      rcases closed_cases hp ha with ⟨-, hnone | ⟨k, hconn⟩⟩ | ⟨-, c, hfd, hc, -⟩
      · exact hn hnone
      · rw [hconn] at hold
        rcases hold with h | ⟨i, h⟩ <;> cases h
      · have hk := hi.epoll c hc
        rw [← hfd] at hk
        rw [hk] at hold
        rcases hold with h | ⟨i, h⟩ <;> cases h
    · exact absurd h hne
    · exact .inr ⟨_, h⟩
  have hafter := exec_listenFd hx
  cases a
  case listenSocket =>
    cases r with
    | none => exact hkept hafter (by simp)
    | some n =>
      have hn : s'.listenFd = n := hafter
      left
      rw [hn, St.kind, exec_file hx]
      simp [After.file, File.strip]
  case closeListener => exact absurd hafter hl
  all_goals exact hkept hafter (by simp)

theorem Rooted.bare_step (hi : Rooted x s) (hp : Pre P t a s) (hx : exec t a r s = some s')
    {c : ChId} {b : Bool} (hs : (s'.base .lobby).aux.scrapped = some (c, b)) :
    (noteAfter c (Sys.own .lobby (x ++ [⟨t, a, r, s, s'⟩]))).bare = true := by
  rw [exec_scrapped hx] at hs
  cases t with
  | lobby =>
    rw [Sys.own_snoc_self x (⟨.lobby, a, r, s, s'⟩ : Ev), noteAfter_append]
    have hold := hi.bare c b
    cases a
    case getEfd d =>
      simp only [After.scrapped, if_true] at hs
      cases hs
      simp [noteStep]
    case close n =>
      simp only [After.scrapped, if_true] at hs
      obtain ⟨p, hp', he⟩ := Option.map_eq_some_iff.mp hs
      cases he
      exact hi.bare p.1 p.2 hp'
    case newTracker d m =>
      have h := hold (by simpa [After.scrapped] using hs)
      simp only [noteStep]
      split <;> exact h
    case dropTracker d => simp [After.scrapped] at hs
    case startWorker d =>
      cases r with
      | false => exact hold hs
      | true =>
        simp only [noteStep]
        split <;> exact hold hs
    case loadStop | storeStop | joinWorker | insertChannel | eraseChannel =>
      simp only [noteStep]
      split <;> exact hold hs
    all_goals exact hold hs
  | chan d =>
    rw [Sys.own_snoc_ne x (by simp)]
    refine hi.bare c b ?_
    cases a
    case newTracker | dropTracker | getEfd => exact hp.2.elim
    all_goals exact hs

theorem Rooted.step (hi : Rooted x s) (hp : Pre P t a s) (hb : (contract t).before a (Sys.own t x))
    (hx : exec t a r s = some s') (ha : ¬ Astray ⟨t, a, r, s, s'⟩) :
    Rooted (x ++ [⟨t, a, r, s, s'⟩]) s' where
  real := fun n hn => (kind_before hx hn).elim (hi.real n) id
  listener := hi.listener_step hp hx ha
  epoll := by
    intro c hc
    rcases hi.before hp hb hx hc with ⟨hold, he⟩ | ⟨-, -, hnew⟩
    · rw [he]
      exact hi.epoll_kept hp hx ha hold hc
    · exact hnew
  distinct := by
    intro c d hc hd he
    -- a new number was free, an old one was taken
    have hclash {c d : ChId} (hd : Equipped d s) (hde : (s'.base (.chan d)).efd = (s.base (.chan d)).efd)
        (hfree : s.kind (s'.base (.chan c)).efd = none)
        (he : (s'.base (.chan c)).efd = (s'.base (.chan d)).efd) : False := by
      have hk := hi.epoll d hd
      rw [← hde, ← he, hfree] at hk
      cases hk
    rcases hi.before hp hb hx hc with ⟨hc', hce⟩ | ⟨hac, hcfree, -⟩
    · rcases hi.before hp hb hx hd with ⟨hd', hde⟩ | ⟨-, hdfree, -⟩
      · exact hi.distinct c d hc' hd' (by rw [← hce, ← hde]; exact he)
      · exact (hclash hc' hce hdfree he.symm).elim
    · rcases hi.before hp hb hx hd with ⟨hd', hde⟩ | ⟨had, -, -⟩
      · exact (hclash hd' hde hcfree he).elim
      · rw [hac] at had
        cases had
        rfl
  bare := fun c b => hi.bare_step hp hx

end

/-! ## Runs -/

/-- The call of the lobby begins or ends the destruction of the channel. -/
def Destroys (c : ChId) (e : Ev) : Prop :=
  e.tid = .lobby ∧ (e.act = .storeStop c true ∨ e.act = .dropTracker c ∨ e.act = .eraseChannel c)

/-- The call closes a descriptor outside of `resolve_deletion`, as a destructor does. -/
def Discards (e : Ev) : Prop :=
  e.act = .closeListener ∨
    ∃ n, e.act = .close n ∧ (e.pre.base e.tid).aux.cursor ≠ some (n, .doomed)

section

variable {P : Params} {tr : List Ev} {c : Config sig Srv St}

theorem rooted (h : (server P).Run (init P) tr c) (ha : ∀ e ∈ tr, ¬ Astray e) :
    ∀ x e y, tr = x ++ e :: y → Rooted x e.pre :=
  (h.along rooted_init fun x e y hs hi => by
    have hl := legal h e (by simp [hs])
    exact hi.step hl.pre ((conduct_run h).2 x e y hs) hl.exec (ha e (by simp [hs]))).2

/-- The lobby destroys empty channels only. -/
theorem hollow_of_destroys {e : Ev} (hl : Legal P e) {d : ChId} (hd : Destroys d e) :
    Hollow d e.pre := by
  obtain ⟨t, a, r, s, s'⟩ := e
  obtain ⟨-, hp, -⟩ := hl
  obtain ⟨rfl, rfl | rfl | rfl⟩ := hd
  · exact hp rfl
  · exact hp.2
  · exact hp

/-- What a destructor closes is no connection. -/
theorem discards_conn {x : List Ev} {e : Ev} (hi : Rooted x e.pre) (hl : Legal P e)
    (ha : ¬ Astray e) (hd : Discards e) {n : Fd} {k : Nat} (hk : e.pre.file n = some (.conn k)) :
    e.post.file n = some (.conn k) := by
  obtain ⟨t, a, r, s, s'⟩ := e
  obtain ⟨-, hp, hx⟩ := hl
  have hkind : s.kind n = some (.conn k) := by
    have hk : s.file n = some (.conn k) := hk
    rw [St.kind, hk]
    rfl
  rcases conn_after hx hk with h | rfl | ⟨-, hl⟩
  · exact h
  · exfalso
    rcases hd with hd | ⟨m, hm, hc⟩
    · cases hd
    · cases hm
      rcases closed_cases hp ha with ⟨hcur, -⟩ | ⟨-, d, hfd, hd, -⟩
      · exact hc hcur
      · have he := hi.epoll d hd
        rw [← hfd] at he
        rw [hkind] at he
        cases he
  · exfalso
    have hreal : 0 ≤ n := hi.real n (by rw [St.kind] at hkind; simp [St.kind, hkind])
    have hlisten := hi.listener (by rw [hl]; rintro rfl; exact absurd hreal (by decide))
    rw [hl, hkind] at hlisten
    rcases hlisten with h | ⟨i, h⟩ <;> cases h

/-- **A stopped channel is empty.** In every reachable state a channel whose flag is set has no clients and
nobody in its pool; so a channel is empty whenever the lobby destroys it. Its destruction closes no
connection, on every run on which no `resolve_deletion` closes anything else. -/
theorem stopped_channel_empty (h : (server P).Run (init P) tr c) :
    (∀ d, (c.st.chan d).stopFlag = true →
      (c.st.base (.chan d)).clients = ∅ ∧ (c.st.chan d).joinPool = []) ∧
    (∀ e ∈ tr, ∀ d, Destroys d e →
      (e.pre.base (.chan d)).clients = ∅ ∧ (e.pre.chan d).joinPool = []) ∧
    ((∀ e ∈ tr, ¬ Astray e) → ∀ e ∈ tr, Discards e → ∀ n k, e.pre.file n = some (.conn k) →
      e.post.file n = some (.conn k)) := by
  refine ⟨fun d hf => ?_, fun e he d hd => ?_, fun ha e he hd n k hk => ?_⟩
  · have hh := (server_verified h).inv.stopped d hf
    exact ⟨hh.clients, hh.joinPool⟩
  · have hh := hollow_of_destroys (legal h e he) hd
    exact ⟨hh.clients, hh.joinPool⟩
  · obtain ⟨x, y, hs⟩ := List.append_of_mem he
    exact discards_conn (rooted h ha x e y hs) (legal h e he) (ha e he) hd hk

end

theorem astray_iff {e : Ev} : Astray e ↔ match e.act with
    | .close n => (e.pre.base e.tid).aux.cursor = some (n, .doomed) ∧
      (e.pre.file n).isSome ∧ (File.conn? (e.pre.file n)).isNone
    | _ => False := by
  obtain ⟨t, a, r, s, s'⟩ := e
  constructor
  · rintro ⟨n, ha, hc, f, hf, hk⟩
    cases ha
    have hfile : s.file n = some f := hf
    refine ⟨hc, by simp [hfile], ?_⟩
    rw [Option.isNone_iff_eq_none, Option.eq_none_iff_forall_ne_some]
    intro k hfk
    have hconn := conn?_eq_some.mp hfk
    rw [hf] at hconn
    exact hk k (Option.some.inj hconn)
  · intro h
    cases a
    case close n =>
      obtain ⟨hc, hf, hk⟩ := h
      obtain ⟨f, hf⟩ := Option.isSome_iff_exists.mp hf
      have hf' : s.file n = some f := hf
      refine ⟨n, rfl, hc, f, hf', fun k hfk => ?_⟩
      subst hfk
      simp [hf', File.conn?] at hk
    all_goals exact h.elim

instance (e : Ev) : Decidable (Astray e) :=
  @decidable_of_iff _ _ astray_iff.symm (by split <;> infer_instance)

/-- The only client of a channel leaves, and after five minutes the channel is reaped; another client is in
the lobby. -/
def reaped : List (Turn Srv Input) :=
  settles 5 1 ++ [tick .lobby connects, tick (.chan 1) (hangsUp 5), tick (.chan 1) {},
    tick (.chan 1) {}, tick .lobby { now := 400000 }]

theorem stopped_channel_empty_reaped : ∃ tr c, (server sample).Run (init sample) tr c ∧
    (∃ e ∈ tr, Destroys 1 e) ∧ (∃ e ∈ tr, Discards e) ∧
      (∀ e ∈ tr, Destroys 1 e → (e.pre.base (.chan 1)).clients = ∅) ∧
      ∀ e ∈ tr, Discards e → ∀ n k, e.pre.file n = some (.conn k) →
        e.post.file n = some (.conn k) := by
  obtain ⟨tr, c, hr, ⟨d, hd, hdt, hda⟩, ⟨e, he, hea⟩, hok⟩ := exists_run (P := sample)
    (p := fun tr _ => (∃ e ∈ tr, e.tid = .lobby ∧ e.act = .dropTracker 1) ∧
      (∃ e ∈ tr, e.act = .closeListener) ∧ ∀ e ∈ tr, ¬ Astray e) reaped (by decide +kernel)
  have hall := stopped_channel_empty hr
  exact ⟨tr, c, hr, ⟨d, hd, hdt, .inr (.inl hda)⟩, ⟨e, he, .inl hea⟩,
    fun f hf hfd => (hall.2.1 f hf 1 hfd).1, hall.2.2 hok⟩

/-- Client 5 moves from channel 1 to channel 2 and hangs up. Channel 2 has noted it for deletion when
channel 1, which it has left already, closes it; the instance of channel 3 gets the number, channel 2
closes that, and the next client gets it. Channel 3 is empty and reaped after five minutes. -/
def reused : List (Turn Srv Input) :=
  settles 5 1 ++ [tick .lobby connects, tick (.chan 1) (sends 5 (switchFrame 2)), tick .lobby {},
    tick (.chan 2) {}, ⟨.chan 2, 20, hangsUp 5⟩, tick (.chan 1) (hangsUp 5), tick (.chan 1) {},
    tick .lobby (sends 7 (joinFrame 3)), tick (.chan 3) {}, tick (.chan 3) (hangsUp 7),
    tick (.chan 3) {}, tick (.chan 3) {}, tick (.chan 2) {}, tick .lobby connects,
    tick .lobby { now := 400000 }]

/-- The destructor of an empty channel closes the connection of a client. -/
theorem reaping_closes_client : ∃ tr c, (server sample).Run (init sample) tr c ∧
    ∃ e ∈ tr, e.tid = .lobby ∧ Discards e ∧ (e.pre.base .lobby).aux.scrapped = some (3, false) ∧
      ∃ n k, e.pre.file n = some (.conn k) ∧ e.post.file n = none := by
  obtain ⟨tr, c, hr, e, he, ht, ha, hc, hs, hpre, hpost⟩ := exists_run (P := sample)
    (p := fun tr _ => ∃ e ∈ tr, e.tid = .lobby ∧ e.act = .close 5 ∧
      (e.pre.base .lobby).aux.cursor = none ∧ (e.pre.base .lobby).aux.scrapped = some (3, false) ∧
        e.pre.file 5 = some (.conn 2) ∧ e.post.file 5 = none) reused (by decide +kernel)
  refine ⟨tr, c, hr, e, he, ht, .inr ⟨5, ha, ?_⟩, hs, 5, 2, hpre, hpost⟩
  rw [ht, hc]
  simp

end ChatChannel
