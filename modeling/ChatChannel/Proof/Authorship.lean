import ChatChannel.Model.Script
import ChatChannel.Proof.Runs

/-!
# Whom a report is about

A report names its client by a descriptor number, and between the frame that asked for the move and
`consume_report` the number may be closed and given to another connection. What keeps the two apart
is the client's name: `resolve_deletion` takes it away before it closes the number, and without a
name `join_and_logging` and `leave_and_logging` put nobody into a pool.
-/

set_option autoImplicit false

namespace ChatChannel

open Conc

/-- The connection behind the report's descriptor is the one whose frame made the report. -/
def Current (s : St) (q : ChannelReport) : Prop :=
  ∃ k, q.author = some k ∧ s.file q.from' = some (.conn k)

/-- Nobody is moved on account of the number `n` if it is closed now: it has no name while a report
of it is under way, and the lobby is not about to use a name it found. -/
def Closable (n : Fd) (s : St) : Prop :=
  (∀ q ∈ underWay s, q.from' = n → s.names n = none) ∧
    ∀ q ∈ s.lobby.req, (s.base .lobby).aux.known ≠ some n

/-- The step is taken in time: the report is of an open connection, the name is given to the
connection that the reports under way are about, the closed number is in no report that counts. -/
def Timely (e : Ev) : Prop :=
  match e.act with
  | .report n _ _ => ∀ p ∈ (e.pre.base e.tid).aux.source, e.pre.names n ≠ none →
      e.pre.file n = some (.conn p.2)
  | .setUserName n _ => ∀ q ∈ underWay e.pre, q.from' = n → Current e.pre q
  | .close n => Closable n e.pre
  | .closeListener => Closable e.pre.listenFd e.pre
  | _ => True

/-- Every report under way has an author, and as long as its number has a name, or the lobby is about
to use the name it found, that is the connection behind the number. -/
structure Authored (s : St) : Prop where
  author : ∀ q ∈ underWay s, ∃ k, q.author = some k
  named : ∀ q ∈ underWay s, s.names q.from' ≠ none → Current s q
  known : ∀ q, s.lobby.req = some q → (s.base .lobby).aux.known = some q.from' → Current s q

instance (s : St) (q : ChannelReport) : Decidable (Current s q) :=
  decidable_of_iff (q.author.isSome ∧ File.conn? (s.file q.from') = q.author) <| by
    simp only [Current, Option.isSome_iff_exists]
    constructor
    · rintro ⟨⟨k, hk⟩, hc⟩
      exact ⟨k, hk, conn?_eq_some.mp (hc.trans hk)⟩
    · rintro ⟨k, hk, hf⟩
      exact ⟨⟨k, hk⟩, (conn?_eq_some.mpr hf).trans hk.symm⟩

instance (n : Fd) (s : St) : Decidable (Closable n s) := by
  unfold Closable
  infer_instance

instance (e : Ev) : Decidable (Timely e) := by
  obtain ⟨t, a, r, s, s'⟩ := e
  induction a using Act.casesOn
  case report n p j => exact inferInstanceAs (Decidable (∀ p ∈ (s.base t).aux.source,
    s.names n ≠ none → s.file n = some (.conn p.2)))
  case setUserName n u => exact inferInstanceAs (Decidable (∀ q ∈ underWay s,
    q.from' = n → Current s q))
  case close n => exact inferInstanceAs (Decidable (Closable n s))
  case closeListener => exact inferInstanceAs (Decidable (Closable s.listenFd s))
  all_goals exact inferInstanceAs (Decidable True)

section

variable {P : Params} {t : Srv} {a : Act} {r : Res a} {s s' : St}

/-- What is behind a report's number changes only when the number is closed. -/
theorem Current.step {q : ChannelReport} (h : exec t a r s = some s') (hq : Current s q)
    (hclose : a ≠ .close q.from') (hlisten : a = .closeListener → s.listenFd ≠ q.from') :
    Current s' q := by
  obtain ⟨k, hk, hfile⟩ := hq
  rcases conn_after h hfile with hfile | rfl | ⟨rfl, hl⟩
  · exact ⟨k, hk, hfile⟩
  · exact absurd rfl hclose
  · exact absurd hl (hlisten rfl)

/-- In a step that is taken in time a number that is closed is in no report that counts. -/
theorem Timely.current {q : ChannelReport} (hC : Timely ⟨t, a, r, s, s'⟩)
    (h : exec t a r s = some s') (hq : Current s q)
    (hcount : q ∈ underWay s ∧ s.names q.from' ≠ none ∨
      s.lobby.req = some q ∧ (s.base .lobby).aux.known = some q.from') : Current s' q := by
  have hkeep : ¬ Closable q.from' s := by
    rintro ⟨hnames, hknown⟩
    rcases hcount with ⟨hmem, hn⟩ | ⟨hreq, hk⟩
    · exact hn (hnames q hmem rfl)
    · exact hknown q hreq hk
  refine hq.step h ?_ ?_
  · rintro rfl
    exact hkeep hC
  · rintro rfl hl
    exact hkeep (hl ▸ hC)

theorem Authored.step (hi : Authored s) (hp : Pre P t a s) (hC : Timely ⟨t, a, r, s, s'⟩)
    (h : exec t a r s = some s') : Authored s' where
  author := by
    intro q hq
    rcases underWay_before h hq with hq | ⟨p, rfl, ha⟩
    · exact hi.author q hq
    · cases t with
      | lobby => exact hp.elim
      | chan c =>
        obtain ⟨⟨k, hk⟩, -⟩ := hp.2
        exact ⟨k, by rw [ha, hk]; rfl⟩
  named := by
    intro q hq hn
    rw [exec_names h] at hn
    rcases underWay_before h hq with hq | ⟨p, rfl, ha⟩
    · by_cases hset : ∃ u, a = .setUserName q.from' u
      · obtain ⟨u, rfl⟩ := hset
        exact Current.step h (hC q hq rfl) (by simp) (by simp)
      · have hold : s.names q.from' ≠ none := by
          cases a
          case setUserName m u =>
            have hm : q.from' ≠ m := fun hm => hset ⟨u, by rw [hm]⟩
            simpa [After.names, Function.update_of_ne hm] using hn
          case removeUserName m =>
            have hm : q.from' ≠ m := by
              rintro rfl
              simp [After.names] at hn
            simpa [After.names, Function.update_of_ne hm] using hn
          all_goals exact hn
        exact hC.current h (hi.named q hq hold) (.inl ⟨hq, hold⟩)
    · cases t with
      | lobby => exact hp.elim
      | chan c =>
        obtain ⟨⟨k, hk⟩, -⟩ := hp.2
        have hauth : q.author = some k := by rw [ha, hk]; rfl
        exact Current.step h ⟨k, hauth, hC (q.from', k) hk hn⟩ (by simp) (by simp)
  known := by
    intro q hq hk
    rw [exec_lobby h] at hq
    rw [exec_known h] at hk
    have hold : s.lobby.req = some q → (s.base .lobby).aux.known = some q.from' → Current s' q :=
      fun hr hk => hC.current h (hi.known q hr hk) (.inr ⟨hr, hk⟩)
    cases a
    case getUserName n =>
      by_cases ht : Srv.lobby = t
      · have hr : r = s.names n := (need_eq_some.mp h).1
        simp only [After.known, ht, if_true] at hk
        obtain ⟨u, hu, hn⟩ := Option.map_eq_some_iff.mp hk
        subst hn
        have hname : s.names q.from' ≠ none := by simp [← hr, hu]
        have hmem : q ∈ underWay s := mem_underWay.mpr (.inr (.inr hq))
        exact hC.current h (hi.named q hmem hname) (.inl ⟨hmem, hname⟩)
      · exact hold hq (by simpa [After.known, ht] using hk)
    case nextReport =>
      cases t with
      | lobby => simp [After.known] at hk
      | chan c => exact hp.2.elim
    case dropReports => simp [After.lobby] at hq
    case emplaceJoin c n m =>
      cases t with
      | lobby => simp [After.known] at hk
      | chan c => exact hp.2.elim
    case emplaceLeave c n m =>
      cases t with
      | lobby => simp [After.known] at hk
      | chan c => exact hp.2.elim
    case newTracker c m => exact hold hq (by simpa [After.known] using hk)
    case dropTracker c => exact hold hq (by simpa [After.known] using hk)
    all_goals exact hold hq hk

theorem authored_init : Authored (init P) :=
  ⟨by simp [underWay, init], by simp [underWay, init], by simp [init]⟩

end

/-- **A report acts on its author.** On every run whose steps are taken in time: whenever
`consume_report` puts a descriptor into a pool, the connection open under it is the one whose frame
made the report. -/
theorem report_acts_on_author (P : Params) {tr : List Ev} {k : Config sig Srv St}
    (h : (server P).Run (init P) tr k) (hC : ∀ e ∈ tr, Timely e) :
    ∀ e ∈ tr, ∀ c n m q, (e.act = .emplaceJoin c n m ∨ e.act = .emplaceLeave c n m) →
      e.pre.lobby.req = some q → q.from' = n ∧ Current e.pre q := by
  intro e he c n m q ha hq
  obtain ⟨-, hall⟩ := run_invariant authored_init
    (fun e hl hc hi => Authored.step hi hl.pre hc hl.exec) h hC
  have hpre := (legal h e he).pre
  obtain ⟨t, a, r, s, s'⟩ := e
  cases t with
  | chan d => rcases ha with rfl | rfl <;> exact hpre.2.elim
  | lobby =>
    have hk : (s.base .lobby).aux.known = some n ∧ q.from' = n := by
      rcases ha with rfl | rfl
      · obtain ⟨-, -, -, -, -, hk, hr, -⟩ := hpre
        exact ⟨hk, (hr q hq).1⟩
      · obtain ⟨hk, q', hq', hn, -⟩ := hpre
        rw [hq] at hq'
        cases hq'
        exact ⟨hk, hn⟩
    exact ⟨hk.2, (hall _ he).known q hq (hk.2 ▸ hk.1)⟩

/-- A client moves from channel 1 to channel 2. -/
def switches : List (Turn Srv Input) :=
  settles 5 1 ++ [tick (.chan 1) (sends 5 (switchFrame 2)), tick .lobby {}]

theorem report_acts_on_author_switch : ∃ (tr : List Ev) (k : Config sig Srv St),
    ((server sample).Run (init sample) tr k ∧ 5 ∈ keys (k.st.chan 2).joinPool ∧
      5 ∈ keys (k.st.chan 1).leavePool) ∧
    ∀ e ∈ tr, ∀ c n m q, (e.act = .emplaceJoin c n m ∨ e.act = .emplaceLeave c n m) →
      e.pre.lobby.req = some q → q.from' = n ∧ Current e.pre q := by
  obtain ⟨tr, k, h, ⟨hj, hl⟩, hC⟩ : ∃ tr k, (server sample).Run (init sample) tr k ∧
      (5 ∈ keys (k.st.chan 2).joinPool ∧ 5 ∈ keys (k.st.chan 1).leavePool) ∧
      ∀ e ∈ tr, Timely e := exists_run switches (by decide +kernel)
  exact ⟨tr, k, ⟨h, hj, hl⟩, report_acts_on_author sample h hC⟩

/-- A client asks to move and hangs up while the lobby is between its queue and its events; the next
client gets the number. -/
def takeover : List (Turn Srv Input) :=
  settles 5 1 ++ [⟨.lobby, 5, {}⟩, tick (.chan 1) (sends 5 (switchFrame 2)),
    tick (.chan 1) (hangsUp 5), tick .lobby connects, tick .lobby {}]

/-- The second client is put into channel 2, which the first one asked for. -/
theorem report_acts_on_successor : ∃ tr k, (server sample).Run (init sample) tr k ∧
    ∃ e ∈ tr, (∃ q ∈ e.pre.lobby.req, q.from' = 5 ∧ q.author = some 0) ∧
      (e.pre.chan 2).joinPool = [] ∧ keys (e.post.chan 2).joinPool = [5] ∧
      e.post.file 5 = some (.conn 1) :=
  exists_run takeover (by decide +kernel)

end ChatChannel
