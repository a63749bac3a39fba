import ChatChannel.Proof.Numbers
import ChatChannel.Proof.Reaping

/-!
# The listening socket

The socket the lobby listens on and its epoll instance have the numbers 3 and 4 from the start. As long as
both are open no client has one of these numbers, and since whatever is scheduled for deletion was an
event, a client or an accepted connection, no `resolve_deletion` closes them (`Tended`). What closes the
socket is the destructor of a channel.
-/

set_option autoImplicit false

namespace ChatChannel

open Conc

/-- The listening socket of the start is open, and registered with the lobby. -/
def Listening (s : St) : Prop :=
  s.listenFd = lobbyListener ∧ s.file lobbyListener = some (.listener 0) ∧
    lobbyListener ∈ s.registered .lobby

/-- A number that is neither the listening socket's nor the lobby's epoll instance's. -/
def Guest (n : Fd) : Prop := n ≠ lobbyListener ∧ n ≠ lobbyEpoll

/-! ## What the programs schedule -/

/-- The answers as they are while the listener is open and no channel is destroyed. -/
def Expected : (a : Act) → Res a → Prop
  | .isListener n, r => r = false → n ≠ lobbyListener
  | .getEv, evs => ∀ ev ∈ evs, ev.fd ≠ lobbyEpoll
  | .accept, o => ∀ n, o = some n → Guest n
  | .getClients, l => ∀ n ∈ l, Guest n
  | .getLastAct, l => ∀ p ∈ l, Guest p.1
  | .getEfd _, _ => False
  | _, _ => True

/-- Only guests are scheduled for deletion. -/
def Proper : Act → Prop
  | .insertDeletion n | .setLastAct n _ => Guest n
  | .assignLastAct l => ∀ p ∈ l, Guest p.1
  | .closeListener | .epollDel _ _ => False
  | _ => True

/-- The judgment for programs that run while the listener is open. -/
abbrev Minds {α : Type} (p : Code α) (Q : α → Prop) : Prop := p.Under Expected Proper Q

theorem minds_proc {P : Params} (v : Srv) : Minds (proc P v) fun _ => True := by
  have hcites : Cites False (· ≠ lobbyEpoll) Guest (proc P v) fun _ => True := cites_proc v
  refine hcites.imp (fun a r hr => ?_) fun a ha => ?_
  · cases a
    case isListener n => exact fun hf he => ⟨hr hf, he⟩
    all_goals exact hr
  · cases a <;> exact ha

/-! ## What is behind the numbers -/

section

variable {t : Srv} {a : Act} {r : Res a} {s s' : St} {m n : Fd}

/-- What an interest list has after a call it had before, unless it was added. -/
theorem interest_before (h : exec t a r s = some s') (hn : n ∈ File.interest (s'.file m)) :
    n ∈ File.interest (s.file m) ∨ (∃ h : a = .addClient n, h ▸ r = .ok) ∨
      ∃ c, a = .epollAddListener c ∧ n = s.listenFd := by
  have hclose {k : Fd} (hn : n ∈ File.interest ((s.closeFile k).file m)) :
      n ∈ File.interest (s.file m) := by
    rw [St.closeFile_file, Function.update_apply] at hn
    split at hn
    · exact absurd hn (by simp [File.interest])
    · cases hf : s.file m with
      | none => simp [hf, File.interest] at hn
      | some f => cases f <;> simp_all [File.interest, File.forget]
  have hopen {k : Fd} {f : File} (hf : File.interest (some f) = ∅)
      (hn : n ∈ File.interest (Function.update s.file k (some f) m)) : n ∈ File.interest (s.file m) := by
    rw [Function.update_apply] at hn
    split at hn
    · exact absurd hn (by simp [hf])
    · exact hn
  have hmap {v : Srv} {g : Finset Fd → Finset Fd} {φ : Prop}
      (hg : ∀ i, n ∈ g i → n ∈ i ∨ φ) (hn : n ∈ File.interest ((s.onInterest v g).file m)) :
      n ∈ File.interest (s.file m) ∨ φ := by
    rw [St.onInterest_file, Function.update_apply] at hn
    split at hn
    · rename_i hm
      rw [hm]
      cases hf : s.file (s.base v).efd with
      | none => simp [hf, File.interest] at hn
      | some f => cases f <;> simp_all [File.interest, File.mapInterest]
    · exact .inl hn
  rw [exec_file h] at hn
  cases a
  case addClient k =>
    cases r with
    | ok =>
      rcases hmap (φ := n = k) (fun i hi => (Finset.mem_insert.mp hi).symm) hn with hn | rfl
      · exact .inl hn
      · exact .inr (.inl ⟨rfl, rfl⟩)
    | full | failed => exact .inl hn
  case deleteClient k =>
    cases r with
    | true =>
      exact .inl ((hmap (φ := False) (fun i hi => .inl (Finset.mem_of_mem_erase hi)) hn).resolve_right id)
    | false => exact .inl hn
  case epollAddListener c =>
    cases r with
    | true =>
      rcases hmap (φ := n = s.listenFd) (fun i hi => (Finset.mem_insert.mp hi).symm) hn with hn | hn
      · exact .inl hn
      · exact .inr (.inr ⟨c, rfl, hn⟩)
    | false => exact .inl hn
  case epollDel c k =>
    exact .inl ((hmap (φ := False) (fun i hi => .inl (Finset.mem_of_mem_erase hi)) hn).resolve_right id)
  case close k => exact .inl (hclose hn)
  case closeListener => exact .inl (hclose hn)
  case accept =>
    cases r with
    | none => exact .inl hn
    | some k => exact .inl (hopen rfl hn)
  case listenSocket =>
    cases r with
    | none => exact .inl hn
    | some k => exact .inl (hopen rfl hn)
  case bindListen =>
    cases r with
    | false => exact .inl hn
    | true => exact .inl (hopen rfl hn)
  case epollCreate c =>
    cases r with
    | none => exact .inl hn
    | some k => exact .inl (hopen rfl hn)
  all_goals exact .inl hn

/-- What an interest list has it keeps, until it is deleted or closed, or the list is. -/
theorem interest_after (h : exec t a r s = some s') (hn : n ∈ File.interest (s.file m))
    (hcm : a ≠ .close m) (hcn : a ≠ .close n)
    (hd : ∀ h : a = .deleteClient n, (s.base t).efd = m → (h ▸ r : Res (.deleteClient n)) = false)
    (hl : a = .closeListener → s.listenFd ≠ m ∧ s.listenFd ≠ n)
    (he : ∀ c, a = .epollDel c n → (s.base (.chan c)).efd ≠ m) : n ∈ File.interest (s'.file m) := by
  have hepoll : ∃ i, s.file m = some (.epoll i) ∧ n ∈ i := by
    cases hf : s.file m with
    | none => simp [hf, File.interest] at hn
    | some f => cases f <;> simp_all [File.interest]
  obtain ⟨i, hf, hi⟩ := hepoll
  have hopen {k : Fd} {f : File} (hk : s.file k = none ∨ s.file k = some .socket) :
      n ∈ File.interest (Function.update s.file k (some f) m) := by
    have hmk : m ≠ k := by
      rintro rfl
      rcases hk with hk | hk <;> simp [hf] at hk
    rwa [Function.update_of_ne hmk]
  have hmap {v : Srv} {g : Finset Fd → Finset Fd} (hg : (s.base v).efd = m → n ∈ g i) :
      n ∈ File.interest ((s.onInterest v g).file m) := by
    rw [St.onInterest_file, Function.update_apply]
    split
    · rename_i hm
      rw [← hm, hf]
      exact hg hm.symm
    · exact hn
  have hclose {k : Fd} (hmk : m ≠ k) (hnk : n ≠ k) : n ∈ File.interest ((s.closeFile k).file m) := by
    simp [Function.update_of_ne hmk, hf, File.interest, File.forget, hi, hnk]
  rw [exec_file h]
  cases a
  case addClient k =>
    cases r with
    | ok => exact hmap fun _ => Finset.mem_insert_of_mem hi
    | full | failed => exact hn
  case deleteClient k =>
    cases r with
    | true =>
      refine hmap fun hm => Finset.mem_erase.mpr ⟨fun hk => ?_, hi⟩
      subst hk
      exact Bool.noConfusion (hd rfl hm)
    | false => exact hn
  case epollAddListener c =>
    cases r with
    | true => exact hmap fun _ => Finset.mem_insert_of_mem hi
    | false => exact hn
  case epollDel c k =>
    exact hmap fun hm => Finset.mem_erase.mpr ⟨fun hk => he c (by rw [hk]) hm, hi⟩
  case close k => exact hclose (fun hk => hcm (by rw [hk])) fun hk => hcn (by rw [hk])
  case closeListener => exact hclose (hl rfl).1.symm (hl rfl).2.symm
  case accept =>
    cases r with
    | none => exact hn
    | some k => exact hopen (.inl (need_eq_some.mp h).1.2.2)
  case listenSocket =>
    cases r with
    | none => exact hn
    | some k => exact hopen (.inl (need_eq_some.mp h).1.2)
  case bindListen =>
    cases r with
    | false => exact hn
    | true => exact hopen (.inr (need_eq_some.mp h).1)
  case epollCreate c =>
    cases r with
    | none => exact hn
    | some k => exact hopen (.inl (need_eq_some.mp h).1.2)
  all_goals exact hn

end

/-! ## The invariant -/

/-- The listener is open, and whatever a server has the number of is a guest. -/
structure Tended (s : St) : Prop where
  listening : Listening s
  lobby : (s.base .lobby).efd = lobbyEpoll
  intact : (s.base .lobby).aux.scrapped = none
  interest : ∀ m, lobbyEpoll ∉ File.interest (s.file m)
  events : ∀ v, ∀ ev ∈ (s.base v).events, ev.fd ≠ lobbyEpoll
  clients : ∀ v, ∀ n ∈ (s.base v).clients, Guest n
  nextDeletion : ∀ v, ∀ n ∈ (s.base v).nextDeletion, Guest n
  remaining : ∀ v l, (s.base v).aux.remaining = some l → ∀ n ∈ l, Guest n
  cursor : ∀ v n st, (s.base v).aux.cursor = some (n, st) → Guest n
  arrived : ∀ v n, (s.base v).aux.arrived = some n → Guest n
  source : ∀ v n k, (s.base v).aux.source = some (n, k) → Guest n
  reports : ∀ q ∈ underWay s, Guest q.from'
  joinPool : ∀ c, ∀ n ∈ keys (s.chan c).joinPool, Guest n
  joining : ∀ c, ∀ n ∈ (s.chan c).joining, Guest n
  lastAct : ∀ p ∈ s.lobby.lastAct, Guest p.1

theorem tended_init (P : Params) : Tended (init P) where
  listening := ⟨rfl, rfl, by simp [St.registered, init, File.interest, lobbyEpoll, lobbyListener]⟩
  lobby := rfl
  intact := rfl
  interest := by
    intro m
    simp only [init]
    split
    · simp [File.interest]
    · split
      · simp [File.interest, lobbyEpoll, lobbyListener]
      · split <;> simp [File.interest]
  events := (possesses_init P (· ≠ lobbyEpoll) Guest).events
  clients := (possesses_init P (· ≠ lobbyEpoll) Guest).clients
  nextDeletion := (possesses_init P (· ≠ lobbyEpoll) Guest).nextDeletion
  remaining := (possesses_init P (· ≠ lobbyEpoll) Guest).remaining
  cursor := (possesses_init P (· ≠ lobbyEpoll) Guest).cursor
  arrived := (possesses_init P (· ≠ lobbyEpoll) Guest).arrived
  source := (possesses_init P (· ≠ lobbyEpoll) Guest).source
  reports := (possesses_init P (· ≠ lobbyEpoll) Guest).reports
  joinPool := (possesses_init P (· ≠ lobbyEpoll) Guest).joinPool
  joining := (possesses_init P (· ≠ lobbyEpoll) Guest).joining
  lastAct := (possesses_init P (· ≠ lobbyEpoll) Guest).lastAct

section

variable {P : Params} {t : Srv} {a : Act} {r : Res a} {s s' : St}

namespace Tended

/-- What is open and no guest is the listening socket or the lobby's instance. -/
theorem guest_of_conn (hi : Tended s) {n : Fd} {k : Nat} (hk : s.file n = some (.conn k)) : Guest n := by
  obtain ⟨-, hlisten, hreg⟩ := hi.listening
  constructor
  · rintro rfl
    rw [hlisten] at hk
    cases hk
  · rintro rfl
    rw [St.registered, hi.lobby, hk] at hreg
    simp [File.interest] at hreg

theorem guest_of_free (hi : Tended s) {n : Fd} (hn : s.file n = none) : Guest n := by
  obtain ⟨-, hlisten, hreg⟩ := hi.listening
  constructor
  · rintro rfl
    rw [hlisten] at hn
    cases hn
  · rintro rfl
    rw [St.registered, hi.lobby, hn] at hreg
    simp [File.interest] at hreg

/-- Only a guest is closed. -/
theorem closed (hi : Tended s) {n : Fd} (hp : Pre P t (.close n) s) : Guest n := by
  cases t with
  | lobby =>
    rcases hp with hc | ⟨-, c, -, -, -, hs, -⟩
    · exact hi.cursor _ _ _ hc
    · rw [hi.intact] at hs
      cases hs
  | chan d => exact hi.cursor _ _ _ hp.2

theorem listening_step (hi : Tended s) (hp : Pre P t a s) (ha : Proper a)
    (hx : exec t a r s = some s') : Listening s' := by
  obtain ⟨hfd, hfile, hreg⟩ := hi.listening
  have hsame : s'.listenFd = s.listenFd := by
    rw [exec_listenFd hx]
    cases a
    case listenSocket =>
      have hnone : s.listenFd = fdErr := by
        cases t with
        | lobby => exact hp
        | chan d => exact hp.2.elim
      rw [hfd] at hnone
      exact absurd hnone (by decide)
    case closeListener => exact ha.elim
    all_goals rfl
  have hclose {n : Fd} (hn : a = .close n) : Guest n := by
    subst hn
    exact hi.closed hp
  refine ⟨hsame.trans hfd, ?_, ?_⟩
  · have hkind : s.kind lobbyListener = some (.listener 0) := by simp [St.kind, hfile, File.strip]
    have hkept : s'.kind lobbyListener = some (.listener 0) := by
      rcases kind_after hx (n := lobbyListener) (by simp [hkind]) with h | h | ⟨rfl, -⟩ | ⟨-, h, -⟩
      · exact h.trans hkind
      · exact absurd rfl (hclose h).1
      · exact ha.elim
      · rw [hkind] at h
        cases h
    obtain ⟨f, hf, hs⟩ := Option.map_eq_some_iff.mp hkept
    cases f <;> simp_all [File.strip]
  · have hefd : (s'.base .lobby).efd = lobbyEpoll := by
      rw [exec_efd hx]
      cases a
      case epollCreate c => cases r <;> simp [After.efd, hi.lobby]
      all_goals simp [After.efd, hi.lobby]
    rw [St.registered, hi.lobby] at hreg
    rw [St.registered, hefd]
    refine interest_after hx hreg (fun h => (hclose h).2 rfl) (fun h => (hclose h).1 rfl) (fun h _ => ?_)
      (fun h => by subst h; exact ha.elim) fun c h => by subst h; exact ha.elim
    -- the tracker refuses to delete the listening socket
    subst h
    cases r with
    | false => rfl
    | true =>
      have hok : ¬ s.addRefused t lobbyListener := (need_eq_some.mp hx).1.1
      exact absurd (.inr (.inr hfd.symm)) hok

theorem possesses (hi : Tended s) : Possesses (· ≠ lobbyEpoll) Guest s :=
  ⟨hi.events, hi.clients, hi.nextDeletion, hi.remaining, hi.cursor, hi.arrived, hi.source, hi.reports,
    hi.joinPool, hi.joining, hi.lastAct⟩

/-- One call, with an answer as expected. -/
theorem step (hi : Tended s) (hp : Pre P t a s) (ha : Proper a) (hg : ∀ c, a ≠ .getEfd c)
    (hx : exec t a r s = some s') : Tended s' := by
  have hargs : Arguments False Guest a := by cases a <;> exact ha
  have hall : Possesses (· ≠ lobbyEpoll) Guest s' := by
    refine hi.possesses.step (fun n => hi.guest_of_free) (fun n k => hi.guest_of_conn) (fun v n hn he => ?_)
      hp hargs hx
    rw [he] at hn
    exact hi.interest _ hn
  obtain ⟨hevents, hclients, hnext, hremaining, hcursor, harrived, hsource, hreports, hpool, hjoining,
    hlast⟩ := hall
  refine ⟨hi.listening_step hp ha hx, ?_, ?_, fun m hm => ?_, hevents, hclients, hnext, hremaining, hcursor,
    harrived, hsource, hreports, hpool, hjoining, hlast⟩
  · rw [exec_efd hx]
    cases a
    case epollCreate c => cases r <;> simp [After.efd, hi.lobby]
    all_goals simp [After.efd, hi.lobby]
  · rw [exec_scrapped hx]
    cases a
    case getEfd c => exact absurd rfl (hg c)
    all_goals simp [After.scrapped, hi.intact]
  · rcases interest_before hx hm with hm | ⟨h, -⟩ | ⟨c, -, hl⟩
    · exact hi.interest m hm
    · subst h
      exact (hi.possesses.added hp).2 rfl
    · rw [hi.listening.1] at hl
      exact absurd hl (by decide)

/-- The answers are as expected. -/
theorem expected (hi : Tended s) (hg : ∀ c, a ≠ .getEfd c) (hx : exec t a r s = some s') :
    Expected a r := by
  have hanswers : Answers False (· ≠ lobbyEpoll) Guest a r :=
    hi.possesses.answers (fun n => hi.guest_of_free) (fun n hn he => ⟨hi.listening.1 ▸ hn, he⟩)
      (fun c hc => hg c hc) hx
  cases a
  case isListener n =>
    have hr : r = decide (n = s.listenFd) := (need_eq_some.mp hx).1
    intro hf
    rw [hr, hi.listening.1] at hf
    exact of_decide_eq_false hf
  all_goals exact hanswers

end Tended

end

/-! ## Runs -/

/-- The destructor of a channel is entered. -/
def Razes (e : Ev) : Prop := ∃ d, e.act = .getEfd d

instance : DecidablePred Razes := by
  rintro ⟨t, a, r, s, s'⟩
  induction a using Act.casesOn
  case getEfd d => exact isTrue ⟨d, rfl⟩
  all_goals exact isFalse (by rintro ⟨d, h⟩; cases h)

/-- **The server keeps listening** on every run on which no channel is destroyed, in every state: the socket
of the start is open, and registered with the lobby's epoll instance. -/
theorem listening_kept {P : Params} {tr : List Ev} {c : Config sig Srv St}
    (h : (server P).Run (init P) tr c) (hC : ∀ e ∈ tr, ¬ Razes e) :
    Listening c.st ∧ ∀ e ∈ tr, Listening e.pre := by
  have hstep : ∀ e : Ev, Legal P e ∧ ¬ Razes e → Proper e.act → Tended e.pre →
      Expected e.act e.res ∧ Tended e.post := by
    intro e hl ha hi
    have hg : ∀ d, e.act ≠ .getEfd d := fun d hd => hl.2 ⟨d, hd⟩
    exact ⟨hi.expected hg hl.1.exec, hi.step hl.1.pre ha hg hl.1.exec⟩
  have hflow := h.flow (M := server P) minds_proc (tended_init P) hstep
    fun e he => ⟨legal h e he, hC e he⟩
  exact ⟨hflow.1.listening, fun e he => (hflow.2 e he).1.listening⟩

/-- The only client of a channel leaves, and the channel stops. -/
theorem listening_kept_stopped : ∃ tr c, (server sample).Run (init sample) tr c ∧
    (c.st.chan 1).stopFlag = true ∧ Listening c.st := by
  obtain ⟨tr, c, hr, hs, hC⟩ := exists_run (P := sample)
    (p := fun tr c => (c.st.chan 1).stopFlag = true ∧ ∀ e ∈ tr, ¬ Razes e)
    (settles 5 1 ++ [tick (.chan 1) (hangsUp 5), tick (.chan 1) {}]) (by decide +kernel)
  exact ⟨tr, c, hr, hs, (listening_kept hr hC).1⟩

/-- The channel is reaped after five minutes, and with it the socket the server listens on. -/
theorem listening_lost : ∃ tr c, (server sample).Run (init sample) tr c ∧
    c.st.listenFd = fdErr ∧ c.st.file lobbyListener = none ∧ ¬ Listening c.st := by
  obtain ⟨tr, c, hr, hfd, hfile⟩ := exists_run (P := sample)
    (p := fun _ c => c.st.listenFd = fdErr ∧ c.st.file lobbyListener = none) reaped (by decide +kernel)
  refine ⟨tr, c, hr, hfd, hfile, fun hl => ?_⟩
  have hopen := hl.2.1
  rw [hfile] at hopen
  cases hopen

end ChatChannel
