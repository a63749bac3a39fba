import ChatChannel.Model.Script
import ChatChannel.Proof.Runs

/-!
# Receive buffers

Every server has its own receive buffer for every descriptor number. `replay` computes what a server
decodes from one connection if it starts with an empty buffer: from the bytes it read, the moments it
parsed them, and the moments its own object was made anew. The invariant below says that this is what
the server has in its buffer, for the connection that is open under the number now.
-/

set_option autoImplicit false

namespace ChatChannel

open Conc

/-! ## What a server decodes from a connection -/

abbrev Decoded := Except FrameErr (List Bytes)

/-- What happens to the buffer of a server for a connection. -/
inductive Step
  | read (b : Bytes)
  | parse
  | renew
  deriving DecidableEq

def stepOf (v : Srv) (k : Nat) : LogEv → Option Step
  | .read w j b => if w = v ∧ j = k then some (.read b) else none
  | .decoded w j _ => if w = v ∧ j = k then some .parse else none
  | .renewed w => if w = v then some .renew else none
  | _ => none

def answerOf (v : Srv) (k : Nat) : LogEv → Option Decoded
  | .decoded w j r => if w = v ∧ j = k then some r else none
  | _ => none

/-- The reads and parses of server `v` for connection `k`, and the renewals of `v`. -/
def steps (v : Srv) (k : Nat) (l : List LogEv) : List Step := l.filterMap (stepOf v k)

/-- The same from the first read or parse on. -/
def history (v : Srv) (k : Nat) (l : List LogEv) : List Step :=
  (steps v k l).dropWhile (· = .renew)

/-- What `recv_frame` of server `v` answered for connection `k`, call by call. -/
def answers (v : Srv) (k : Nat) (l : List LogEv) : List Decoded := l.filterMap (answerOf v k)

/-- The buffer and the answers so far. -/
def replayStep (p : Bytes × List Decoded) : Step → Bytes × List Decoded
  | .read b => (p.1 ++ b, p.2)
  | .parse => ((decodeFrames p.1).2, p.2 ++ [(decodeFrames p.1).1])
  | .renew => ([], p.2)

def replay (l : List Step) : Bytes × List Decoded := l.foldl replayStep ([], [])

/-- What a buffer that was empty at first has left. -/
def left (v : Srv) (k : Nat) (s : St) : Bytes := (replay (steps v k s.log)).1

theorem replay_append (l l' : List Step) : replay (l ++ l') = l'.foldl replayStep (replay l) :=
  List.foldl_append

/-- Renewals of an empty buffer do nothing. -/
theorem replay_dropWhile : ∀ l : List Step, replay (l.dropWhile (· = .renew)) = replay l
  | [] => rfl
  | .read _ :: _ => rfl
  | .parse :: _ => rfl
  | .renew :: l => replay_dropWhile l

theorem replay_renewals {l : List Step} (h : ∀ x ∈ l, x = .renew) : replay l = ([], []) := by
  induction l with
  | nil => rfl
  | cons x l ih =>
    obtain rfl := h x List.mem_cons_self
    exact ih fun y hy => h y (List.mem_cons_of_mem _ hy)

theorem decodeFrames_nil : decodeFrames [] = (.ok [], []) := rfl

/-! ## The invariant -/

/-- A connection is closed when no other server has bytes of it: the server that closes it is in its
`resolve_deletion`, which clears its own buffer next. -/
def Drained (e : Ev) : Prop :=
  match e.act with
  | .close n => ∀ v, e.pre.buffer v n ≠ [] →
      v = e.tid ∧ (e.pre.base v).aux.cursor = some (n, .doomed)
  | .closeListener => ∀ v, e.pre.buffer v e.pre.listenFd = []
  | _ => True

structure Buffered (s : St) : Prop where
  fresh : ∀ v k, s.nextConn ≤ k → ∀ x ∈ steps v k s.log, x = .renew
  /-- Between `close` and `clear_buffer` the number may be taken again. -/
  busy : ∀ v n k, s.file n = some (.conn k) →
    if (s.base v).aux.cursor = some (n, .closed) then left v k s = [] else s.buffer v n = left v k s
  free : ∀ v n, (∀ k, s.file n ≠ some (.conn k)) →
    s.buffer v n = [] ∨ (s.base v).aux.cursor = some (n, .closed)
  source : ∀ v n k, (s.base v).aux.source = some (n, k) →
    s.buffer v n = left v k s ∧ (s.file n = some (.conn k) ∨ s.buffer v n = [])
  apart : ∀ v, (s.base v).aux.cursor ≠ none → (s.base v).aux.source = none
  /-- A connection has one number for life. -/
  born : ∀ v n k, (s.base v).aux.source = some (n, k) → k < s.nextConn
  home : ∀ v n k, (s.base v).aux.source = some (n, k) → ∀ m, s.file m = some (.conn k) → m = n
  replayed : ∀ v k, (replay (steps v k s.log)).2 = answers v k s.log

section

variable {P : Params} {t : Srv} {a : Act} {r : Res a} {s s' : St}

theorem steps_exec (h : exec t a r s = some s') (v : Srv) (k : Nat) :
    steps v k s'.log = steps v k s.log ++ steps v k (After.log t s a r) := by
  rw [exec_log h]
  exact List.filterMap_append

theorem answers_exec (h : exec t a r s = some s') (v : Srv) (k : Nat) :
    answers v k s'.log = answers v k s.log ++ answers v k (After.log t s a r) := by
  rw [exec_log h]
  exact List.filterMap_append

theorem buffer_exec (h : exec t a r s = some s') (v : Srv) (n : Fd) :
    s'.buffer v n = (After.rbuf t s v a r n).getD [] := by
  unfold St.buffer
  rw [exec_rbuf h]

/-- The calls that write a receive buffer. -/
def Writes : Act → Prop
  | .recv _ | .decode _ | .clearBuffer _ | .newTracker _ _ | .dropTracker _ => True
  | _ => False

theorem buffer_keep (h : exec t a r s = some s') (ha : ¬ Writes a) (v : Srv) (n : Fd) :
    s'.buffer v n = s.buffer v n := by
  rw [buffer_exec h]
  cases a <;> first | rfl | exact absurd trivial ha

theorem log_keep (ha : ¬ Writes a) (v : Srv) (k : Nat) :
    steps v k (After.log t s a r) = [] ∧ answers v k (After.log t s a r) = [] := by
  cases a
  case addClient n =>
    cases r with
    | ok =>
      simp only [After.log]
      split
      · cases File.conn? (s.file n) <;> exact ⟨rfl, rfl⟩
      · exact ⟨rfl, rfl⟩
    | full => exact ⟨rfl, rfl⟩
    | failed => exact ⟨rfl, rfl⟩
  case close n =>
    simp only [After.log]
    cases File.conn? (s.file n) <;> exact ⟨rfl, rfl⟩
  case onFrame n f =>
    simp only [After.log]
    cases (s.base t).aux.source <;> exact ⟨rfl, rfl⟩
  case startWorker c => cases r <;> exact ⟨rfl, rfl⟩
  all_goals first | exact ⟨rfl, rfl⟩ | exact absurd trivial ha

theorem left_keep (h : exec t a r s = some s') (ha : ¬ Writes a) (v : Srv) (k : Nat) :
    left v k s' = left v k s := by
  unfold left
  rw [steps_exec h, (log_keep ha v k).1, List.append_nil]

/-- A call that leaves the buffers alone marks a number as closed only by closing it. -/
theorem closed_keep (hp : Pre P t a s) (h : exec t a r s = some s') (ha : ¬ Writes a)
    {v : Srv} {n : Fd} (hn : a ≠ .close n) :
    (s'.base v).aux.cursor = some (n, .closed) ↔ (s.base v).aux.cursor = some (n, .closed) := by
  rw [exec_cursor h]
  cases a
  case setCursor o =>
    by_cases hv : v = t
    · subst hv
      have hold : (s.base v).aux.cursor ≠ some (n, .closed) := by
        cases v with
        | lobby =>
          intro hc
          exact absurd (hp.1 n _ hc) (by simp)
        | chan c =>
          rw [hp.2.1]
          simp
      cases o <;> simp [After.cursor, hold]
    · simp [After.cursor, hv]
  case deleteClient m =>
    simp only [After.cursor]
    split
    · split
      · rename_i hc
        simp [hc.1]
      · exact Iff.rfl
    · exact Iff.rfl
  case close m =>
    have hm : m ≠ n := fun hm => hn (by rw [hm])
    simp only [After.cursor]
    split
    · split
      · rename_i hc
        simp [hc, hm]
      · exact Iff.rfl
    · exact Iff.rfl
  all_goals first | exact Iff.rfl | exact absurd trivial ha

theorem source_keep (h : exec t a r s = some s') (ha : ¬ Writes a) {v : Srv} :
    (s'.base v).aux.source = (s.base v).aux.source ∨ (s'.base v).aux.source = none := by
  rw [exec_source h]
  cases a
  case endRecv =>
    simp only [After.source]
    split
    · exact .inr rfl
    · exact .inl rfl
  all_goals first | exact .inl rfl | exact absurd trivial ha

/-- A deletion begins when nothing is being read. -/
theorem apart_step (hi : Buffered s) (hp : Pre P t a s) (h : exec t a r s = some s') (v : Srv)
    (hc : (s'.base v).aux.cursor ≠ none) : (s'.base v).aux.source = none := by
  have hold := hi.apart v
  rw [exec_cursor h] at hc
  rw [exec_source h]
  cases a
  case setCursor o =>
    by_cases hv : v = t
    · subst hv
      cases v with
      | lobby => exact hp.2.1
      | chan c => exact hp.2.2.1
    · exact hold (by simpa [After.cursor, hv] using hc)
  case deleteClient m =>
    refine hold fun hn => hc ?_
    simp [After.cursor, hn]
  case close m =>
    refine hold fun hn => hc ?_
    simp [After.cursor, hn]
  case clearBuffer m =>
    refine hold fun hn => hc ?_
    simp [After.cursor, hn]
  case recv m =>
    by_cases hv : v = t
    · subst hv
      have hn : (s.base v).aux.cursor = none := by
        cases v with
        | lobby => exact hp
        | chan c => exact hp.2
      exact absurd hn hc
    · cases r <;> simpa [After.source, hv] using hold hc
  case endRecv => simp [After.source, hold hc]
  case newTracker c m =>
    by_cases hv : v = .chan c
    · simp [After.source, hv]
    · simpa [After.source, hv] using hold (by simpa [After.cursor, hv] using hc)
  case dropTracker c =>
    by_cases hv : v = .chan c
    · simp [After.source, hv]
    · simpa [After.source, hv] using hold (by simpa [After.cursor, hv] using hc)
  all_goals exact hold hc

theorem source_lt (hi : Buffered s) (h : exec t a r s = some s') {v : Srv} {n : Fd} {k : Nat}
    (hs : (s.base v).aux.source = some (n, k)) : k < s'.nextConn :=
  (hi.born v n k hs).trans_le (nextConn_mono h)

/-- What is read from now on is what was under the number when the reading began. -/
theorem source_home (hi : Buffered s) (h : exec t a r s = some s') {v : Srv} {n m : Fd} {k : Nat}
    (hs : (s.base v).aux.source = some (n, k)) (hm : s'.file m = some (.conn k)) : m = n := by
  rcases conn_before h hm with hm | ⟨rfl, -⟩
  · exact hi.home v n k hs m hm
  · exact absurd (hi.born v n _ hs) (lt_irrefl _)

/-! ### Calls that leave the buffers alone -/

theorem Buffered.busy_keep (hi : Buffered s) (hw : Wf s) (hp : Pre P t a s)
    (h : exec t a r s = some s') (ha : ¬ Writes a) (v : Srv) (n : Fd) (k : Nat)
    (hk : s'.file n = some (.conn k)) : if (s'.base v).aux.cursor = some (n, .closed)
      then left v k s' = [] else s'.buffer v n = left v k s' := by
  have hn : a ≠ .close n := by
    rintro rfl
    rw [exec_file h] at hk
    exact absurd rfl (closeFile_conn.mp hk).1
  have hclosed := closed_keep hp h ha (v := v) hn
  rw [left_keep h ha, buffer_keep h ha]
  simp only [hclosed]
  rcases conn_before h hk with hk' | ⟨rfl, hnext⟩
  · exact hi.busy v n k hk'
  · -- the number was free, and nothing was ever read from the new connection
    have hleft : left v s.nextConn s = [] := by
      unfold left
      rw [replay_renewals (hi.fresh v _ le_rfl)]
    have hfree : ∀ j, s.file n ≠ some (.conn j) := by
      intro j hj
      rcases conn_after h hj with hj' | ha' | ⟨rfl, -⟩
      · rw [hk] at hj'
        cases hj'
        exact absurd (hw.born n _ hj) (lt_irrefl _)
      · exact hn ha'
      · rw [exec_nextConn h] at hnext
        simp [After.nextConn] at hnext
    split
    · exact hleft
    · rename_i hc
      rw [hleft]
      exact (hi.free v n hfree).resolve_right hc

theorem Buffered.free_keep (hi : Buffered s) (hp : Pre P t a s) (hC : Drained ⟨t, a, r, s, s'⟩)
    (h : exec t a r s = some s') (ha : ¬ Writes a) (v : Srv) (n : Fd)
    (hfree : ∀ k, s'.file n ≠ some (.conn k)) :
    s'.buffer v n = [] ∨ (s'.base v).aux.cursor = some (n, .closed) := by
  rw [buffer_keep h ha]
  by_cases hold : ∃ k, s.file n = some (.conn k)
  · obtain ⟨k, hk⟩ := hold
    rcases conn_after h hk with hk' | rfl | ⟨rfl, rfl⟩
    · exact absurd hk' (hfree k)
    · by_cases hb : s.buffer v n = []
      · exact .inl hb
      · obtain ⟨rfl, hc⟩ : v = t ∧ (s.base v).aux.cursor = some (n, .doomed) := hC v hb
        right
        rw [exec_cursor h]
        simp [After.cursor, hc]
    · exact .inl (hC v)
  · refine (hi.free v n fun k hk => hold ⟨k, hk⟩).imp id fun hc => ?_
    by_cases hn : a = .close n
    · subst hn
      rw [exec_cursor h]
      simp [After.cursor, hc]
    · exact (closed_keep hp h ha hn).mpr hc

theorem Buffered.source_keep (hi : Buffered s) (hC : Drained ⟨t, a, r, s, s'⟩)
    (h : exec t a r s = some s') (ha : ¬ Writes a) (v : Srv) (n : Fd) (k : Nat)
    (hs : (s.base v).aux.source = some (n, k)) :
    s'.buffer v n = left v k s' ∧ (s'.file n = some (.conn k) ∨ s'.buffer v n = []) := by
  rw [left_keep h ha, buffer_keep h ha]
  obtain ⟨hb, hf⟩ := hi.source v n k hs
  refine ⟨hb, ?_⟩
  rcases hf with hf | hf
  swap
  · exact .inr hf
  rcases conn_after h hf with hf | rfl | ⟨rfl, rfl⟩
  · exact .inl hf
  · by_contra hne
    obtain ⟨-, hc⟩ : v = t ∧ (s.base v).aux.cursor = some (n, .doomed) :=
      hC v fun hb => hne (.inr hb)
    -- a server that closes is not reading
    rw [hi.apart v (by simp [hc])] at hs
    cases hs
  · exact .inr (hC v)

theorem Buffered.keep (hi : Buffered s) (hw : Wf s) (hp : Pre P t a s)
    (hC : Drained ⟨t, a, r, s, s'⟩) (h : exec t a r s = some s') (ha : ¬ Writes a) :
    Buffered s' := by
  have hold : ∀ {v n k}, (s'.base v).aux.source = some (n, k) →
      (s.base v).aux.source = some (n, k) := by
    intro v n k hs
    rcases ChatChannel.source_keep h ha (v := v) with he | he
    · rwa [he] at hs
    · rw [he] at hs
      cases hs
  refine ⟨fun v k hk => ?_, hi.busy_keep hw hp h ha, hi.free_keep hp hC h ha,
    fun v n k hs => hi.source_keep hC h ha v n k (hold hs), apart_step hi hp h,
    fun v n k hs => source_lt hi h (hold hs), fun v n k hs m => source_home hi h (hold hs),
    fun v k => ?_⟩
  · rw [steps_exec h, (log_keep ha v k).1, List.append_nil]
    exact hi.fresh v k ((nextConn_mono h).trans hk)
  · rw [steps_exec h, answers_exec h, (log_keep ha v k).1, (log_keep ha v k).2, List.append_nil,
      List.append_nil]
    exact hi.replayed v k

/-! ### Calls that write a buffer -/

theorem steps_read (v w : Srv) (j k : Nat) (b : Bytes) :
    steps v k [.read w j b] = if w = v ∧ j = k then [.read b] else [] := by
  unfold steps stepOf
  split <;> rename_i h <;> simp [h]

theorem steps_decoded (v w : Srv) (j k : Nat) (x : Decoded) :
    steps v k [.decoded w j x] = if w = v ∧ j = k then [.parse] else [] := by
  unfold steps stepOf
  split <;> rename_i h <;> simp [h]

theorem steps_renewed (v w : Srv) (k : Nat) :
    steps v k [.renewed w] = if w = v then [.renew] else [] := by
  unfold steps stepOf
  split <;> rename_i h <;> simp [h]

theorem answers_decoded (v w : Srv) (j k : Nat) (x : Decoded) :
    answers v k [.decoded w j x] = if w = v ∧ j = k then [x] else [] := by
  unfold answers answerOf
  split <;> rename_i h <;> simp [h]

/-- `recv` reads when no deletion is under way. -/
theorem recv_cursor {n : Fd} (hp : Pre P t (.recv n) s) : (s.base t).aux.cursor = none := by
  cases t with
  | lobby => exact hp
  | chan c => exact hp.2

/-- A `recv` that brings no bytes. -/
theorem Buffered.recv_empty (hi : Buffered s) (hw : Wf s) {n : Fd} {r : RecvRes}
    (hp : Pre P t (.recv n) s) (h : exec t (.recv n) r s = some s')
    (hr : ∀ b, r ≠ .chunk b) : Buffered s' := by
  have hcur : ∀ v, (s'.base v).aux.cursor = (s.base v).aux.cursor := fun v => exec_cursor h v
  have hfile : s'.file = s.file := exec_file h
  have hnext : s'.nextConn = s.nextConn := exec_nextConn h
  have hlog : s'.log = s.log := by
    rw [exec_log h]
    cases r <;> first | exact List.append_nil _ | exact absurd rfl (hr _)
  have hbuf : ∀ v m, s'.buffer v m = s.buffer v m := by
    intro v m
    rw [buffer_exec h]
    cases r with
    | chunk b => exact absurd rfl (hr b)
    | again | fin | error =>
      simp only [After.rbuf]
      split
      · rename_i hv
        subst hv
        by_cases hm : m = n <;> simp [hm, St.buffer]
      · rfl
  have hleft : ∀ v k, left v k s' = left v k s := fun v k => by rw [left, left, hlog]
  have hsource : ∀ {v m k}, (s'.base v).aux.source = some (m, k) →
      (s.base v).aux.source = some (m, k) ∨ (v = t ∧ m = n ∧ s.file n = some (.conn k)) := by
    intro v m k hs
    rw [exec_source h] at hs
    cases r with
    | chunk b => exact absurd rfl (hr b)
    | fin => exact .inl hs
    | error => exact .inl hs
    | again =>
      by_cases hv : v = t
      · simp only [After.source, hv, if_true] at hs
        obtain ⟨j, hj, he⟩ := Option.map_eq_some_iff.mp hs
        cases he
        exact .inr ⟨hv, rfl, conn?_eq_some.mp hj⟩
      · exact .inl (by simpa [After.source, hv] using hs)
  refine ⟨?_, fun v m k => ?_, fun v m => ?_, fun v m k hs => ?_, apart_step hi hp h,
    fun v m k hs => ?_, fun v m k hs x hx => ?_, fun v k => ?_⟩
  · rw [hlog, hnext]
    exact hi.fresh
  · rw [hcur, hfile, hbuf, hleft]
    exact hi.busy v m k
  · rw [hcur, hfile, hbuf]
    exact hi.free v m
  · rw [hfile, hbuf, hleft]
    rcases hsource hs with hs | ⟨rfl, rfl, hk⟩
    · exact hi.source v m k hs
    · have hb := hi.busy v m k hk
      rw [if_neg (by simp [recv_cursor hp])] at hb
      exact ⟨hb, .inl hk⟩
  · rw [hnext]
    rcases hsource hs with hs | ⟨-, -, hk⟩
    · exact hi.born v m k hs
    · exact hw.born n k hk
  · rw [hfile] at hx
    rcases hsource hs with hs | ⟨-, rfl, hk⟩
    · exact hi.home v m k hs x hx
    · exact hw.single x m k hx hk
  · rw [hlog]
    exact hi.replayed v k

/-- A `recv` that brings bytes. -/
theorem Buffered.recv_chunk (hi : Buffered s) (hw : Wf s) {n : Fd} {b : Bytes}
    (hp : Pre P t (.recv n) s) (h : exec t (.recv n) (.chunk b) s = some s') : Buffered s' := by
  obtain ⟨j, hj⟩ := Option.isSome_iff_exists.mp (need_eq_some.mp h).1.1
  have hn := conn?_eq_some.mp hj
  have hcur : ∀ v, (s'.base v).aux.cursor = (s.base v).aux.cursor := fun v => exec_cursor h v
  have hfile : s'.file = s.file := exec_file h
  have hnext : s'.nextConn = s.nextConn := exec_nextConn h
  have hadd : After.log t s (.recv n) (.chunk b) = [.read t j b] := by
    simp [After.log, hj]
  have hsteps : ∀ v k, steps v k s'.log =
      steps v k s.log ++ if t = v ∧ j = k then [.read b] else [] := by
    intro v k
    rw [steps_exec h, hadd, steps_read]
  have hbuf : ∀ v m, s'.buffer v m =
      if v = t ∧ m = n then s.buffer v m ++ b else s.buffer v m := by
    intro v m
    rw [buffer_exec h]
    by_cases hv : v = t
    · subst hv
      by_cases hm : m = n <;> simp [After.rbuf, hm, St.buffer]
    · simp [After.rbuf, hv, St.buffer]
  have hleft : ∀ v k, left v k s' = if t = v ∧ j = k then left v k s ++ b else left v k s := by
    intro v k
    unfold left
    rw [hsteps, replay_append]
    split <;> rfl
  have hsource : ∀ v, (s'.base v).aux.source =
      if v = t then some (n, j) else (s.base v).aux.source := by
    intro v
    rw [exec_source h]
    simp [After.source, hj]
  have hbn := hi.busy t n j hn
  rw [if_neg (by simp [recv_cursor hp])] at hbn
  refine ⟨fun v k hk x hx => ?_, fun v m k hk => ?_, fun v m hfree => ?_, fun v m k hs => ?_,
    apart_step hi hp h, fun v m k hs => ?_, fun v m k hs x hx => ?_, fun v k => ?_⟩
  · have hjk : j ≠ k := by
      have := hw.born n j hn
      omega
    rw [hsteps, if_neg (fun hc => hjk hc.2), List.append_nil] at hx
    exact hi.fresh v k (hnext ▸ hk) x hx
  · rw [hfile] at hk
    have hb := hi.busy v m k hk
    rw [hcur, hbuf, hleft]
    by_cases hm : m = n
    · subst hm
      rw [hn] at hk
      cases hk
      by_cases hv : v = t
      · subst hv
        simp [recv_cursor hp, hbn]
      · simpa [hv, Ne.symm hv] using hb
    · have hjk : j ≠ k := fun hjk => hm (hw.single m n k hk (hjk ▸ hn))
      simpa [hm, hjk] using hb
  · rw [hfile] at hfree
    have hm : m ≠ n := by
      rintro rfl
      exact hfree j hn
    rw [hcur, hbuf, if_neg (fun hc => hm hc.2)]
    exact hi.free v m hfree
  · rw [hsource] at hs
    rw [hfile, hbuf, hleft]
    by_cases hv : v = t
    · subst hv
      rw [if_pos rfl] at hs
      cases hs
      simp [hbn, hn]
    · rw [if_neg hv] at hs
      simpa [hv, Ne.symm hv] using hi.source v m k hs
  · rw [hsource] at hs
    rw [hnext]
    split at hs
    · cases hs
      exact hw.born n j hn
    · exact hi.born v m k hs
  · rw [hsource] at hs
    rw [hfile] at hx
    split at hs
    · cases hs
      exact hw.single x n j hx hn
    · exact hi.home v m k hs x hx
  · have hnone : answers v k [.read t j b] = [] := rfl
    rw [hsteps, answers_exec h, hadd, hnone, List.append_nil, replay_append]
    have ha := hi.replayed v k
    split <;> simpa [replayStep] using ha

/-- The parse of what is left. -/
theorem Buffered.decode (hi : Buffered s) {n : Fd} {r : Decoded}
    (hp : Pre P t (.decode n) s) (h : exec t (.decode n) r s = some s') : Buffered s' := by
  obtain ⟨hct, j, hj⟩ : (s.base t).aux.cursor = none ∧
      ∃ j, (s.base t).aux.source = some (n, j) := by
    cases t with
    | lobby => exact hp
    | chan c => exact hp.2
  have hr : r = (decodeFrames (s.buffer t n)).1 := (need_eq_some.mp h).1
  have hcur : ∀ v, (s'.base v).aux.cursor = (s.base v).aux.cursor := fun v => exec_cursor h v
  have hsource : ∀ v, (s'.base v).aux.source = (s.base v).aux.source := fun v => exec_source h v
  have hfile : s'.file = s.file := exec_file h
  have hnext : s'.nextConn = s.nextConn := exec_nextConn h
  have hadd : After.log t s (.decode n) r = [.decoded t j r] := by
    simp [After.log, hj]
  obtain ⟨hbl, hopen⟩ := hi.source t n j hj
  have hsteps : ∀ v k, steps v k s'.log =
      steps v k s.log ++ if t = v ∧ j = k then [.parse] else [] := by
    intro v k
    rw [steps_exec h, hadd, steps_decoded]
  have hbuf : ∀ v m, s'.buffer v m =
      if v = t ∧ m = n then (decodeFrames (s.buffer v m)).2 else s.buffer v m := by
    intro v m
    rw [buffer_exec h]
    by_cases hv : v = t
    · subst hv
      by_cases hm : m = n <;> simp [After.rbuf, hm, St.buffer]
    · simp [After.rbuf, hv, St.buffer]
  have hleft : ∀ v k, left v k s' =
      if t = v ∧ j = k then (decodeFrames (left v k s)).2 else left v k s := by
    intro v k
    unfold left
    rw [hsteps, replay_append]
    split <;> rfl
  refine ⟨fun v k hk x hx => ?_, fun v m k hk => ?_, fun v m hfree => ?_, fun v m k hs => ?_,
    apart_step hi hp h, fun v m k hs => ?_, fun v m k hs x hx => ?_, fun v k => ?_⟩
  · have hjk : j ≠ k := by
      have := hi.born t n j hj
      omega
    rw [hsteps, if_neg (fun hc => hjk hc.2), List.append_nil] at hx
    exact hi.fresh v k (hnext ▸ hk) x hx
  · rw [hfile] at hk
    have hb := hi.busy v m k hk
    rw [hcur, hbuf, hleft]
    by_cases hv : v = t
    swap
    · simpa [hv, Ne.symm hv] using hb
    subst hv
    rw [if_neg (by simp [hct])] at hb ⊢
    by_cases hm : m = n
    · subst hm
      by_cases hjk : j = k
      · simp [hjk, hb]
      · -- another connection has the number: there was nothing to parse
        have hempty : s.buffer v m = [] := by
          refine hopen.resolve_left fun hf => hjk ?_
          rw [hf] at hk
          cases hk
          rfl
        have hlk : left v k s = [] := by rw [← hb, hempty]
        simp [hjk, hempty, decodeFrames_nil, hlk]
    · have hjk : j ≠ k := fun hjk => hm (hi.home v n j hj m (hjk ▸ hk))
      simp [hm, hjk, hb]
  · rw [hfile] at hfree
    rw [hcur, hbuf]
    split
    · rename_i hc
      obtain ⟨rfl, rfl⟩ := hc
      have hempty : s.buffer v m = [] := hopen.resolve_left (hfree j)
      simp [hempty, decodeFrames_nil]
    · exact hi.free v m hfree
  · rw [hsource] at hs
    rw [hfile, hbuf, hleft]
    have hold := hi.source v m k hs
    by_cases hv : v = t
    · subst hv
      rw [hj] at hs
      cases hs
      refine ⟨by simp [hold.1], hold.2.imp id fun he => ?_⟩
      simp [he, decodeFrames_nil]
    · simpa [hv, Ne.symm hv] using hold
  · rw [hsource] at hs
    rw [hnext]
    exact hi.born v m k hs
  · rw [hsource] at hs
    rw [hfile] at hx
    exact hi.home v m k hs x hx
  · rw [hsteps, answers_exec h, hadd, replay_append, answers_decoded]
    have ha := hi.replayed v k
    split
    · rename_i hc
      obtain ⟨rfl, rfl⟩ := hc
      have hl : s.buffer t n = (replay (steps t j s.log)).1 := hbl
      simp [replayStep, ha, hr, hl]
    · simpa using ha

/-- `clear_buffer`, after the number was closed. -/
theorem Buffered.clear (hi : Buffered s) {n : Fd} {r : Unit} (hp : Pre P t (.clearBuffer n) s)
    (h : exec t (.clearBuffer n) r s = some s') : Buffered s' := by
  have hct : (s.base t).aux.cursor = some (n, .closed) := by
    cases t with
    | lobby => exact hp
    | chan c => exact hp.2
  have hcur : ∀ v, (s'.base v).aux.cursor = if v = t then none else (s.base v).aux.cursor := by
    intro v
    rw [exec_cursor h]
    by_cases hv : v = t <;> simp [After.cursor, hv, hct]
  have hsource : ∀ v, (s'.base v).aux.source = (s.base v).aux.source := fun v => exec_source h v
  have hfile : s'.file = s.file := exec_file h
  have hnext : s'.nextConn = s.nextConn := exec_nextConn h
  have hlog : s'.log = s.log := (exec_log h).trans (List.append_nil _)
  have hleft : ∀ v k, left v k s' = left v k s := fun v k => by rw [left, left, hlog]
  have hbuf : ∀ v m, s'.buffer v m = if v = t ∧ m = n then [] else s.buffer v m := by
    intro v m
    rw [buffer_exec h]
    by_cases hv : v = t
    · subst hv
      by_cases hm : m = n <;> simp [After.rbuf, hm, St.buffer]
    · simp [After.rbuf, hv, St.buffer]
  refine ⟨?_, fun v m k hk => ?_, fun v m hfree => ?_, fun v m k hs => ?_,
    apart_step hi hp h, fun v m k hs => ?_, fun v m k hs x hx => ?_, fun v k => ?_⟩
  · rw [hlog, hnext]
    exact hi.fresh
  · rw [hfile] at hk
    have hb := hi.busy v m k hk
    rw [hcur, hbuf, hleft]
    by_cases hv : v = t
    · subst hv
      rw [hct] at hb
      by_cases hm : m = n
      · subst hm
        rw [if_pos rfl] at hb
        simp [hb]
      · have hne : ¬ (some (n, Stage.closed) = some (m, Stage.closed)) := by
          simpa using Ne.symm hm
        rw [if_neg hne] at hb
        simpa [hm] using hb
    · simpa [hv] using hb
  · rw [hfile] at hfree
    have hb := hi.free v m hfree
    rw [hcur, hbuf]
    by_cases hv : v = t
    · subst hv
      rw [hct] at hb
      by_cases hm : m = n
      · simp [hm]
      · refine .inl ?_
        rw [if_neg (fun hc => hm hc.2)]
        refine hb.resolve_right fun hc => hm ?_
        cases hc
        rfl
    · simpa [hv] using hb
  · rw [hsource] at hs
    have hv : v ≠ t := by
      rintro rfl
      rw [hi.apart v (by simp [hct])] at hs
      cases hs
    rw [hfile, hbuf, hleft, if_neg (fun hc => hv hc.1)]
    exact hi.source v m k hs
  · rw [hsource] at hs
    rw [hnext]
    exact hi.born v m k hs
  · rw [hsource] at hs
    rw [hfile] at hx
    exact hi.home v m k hs x hx
  · rw [hlog]
    exact hi.replayed v k

/-- A channel's `Communication` is made or destroyed. -/
theorem Buffered.renew (hi : Buffered s) {c : ChId}
    (hbuf : ∀ v m, s'.buffer v m = if v = .chan c then [] else s.buffer v m)
    (hcur : ∀ v, (s'.base v).aux.cursor = if v = .chan c then none else (s.base v).aux.cursor)
    (hsource : ∀ v, (s'.base v).aux.source =
      if v = .chan c then none else (s.base v).aux.source)
    (hfile : s'.file = s.file) (hnext : s'.nextConn = s.nextConn)
    (hlog : s'.log = s.log ++ [.renewed (.chan c)]) : Buffered s' := by
  have hsteps : ∀ v k, steps v k s'.log =
      steps v k s.log ++ if .chan c = v then [.renew] else [] := by
    intro v k
    rw [hlog, ← steps_renewed]
    exact List.filterMap_append
  have hleft : ∀ v k, left v k s' = if .chan c = v then [] else left v k s := by
    intro v k
    unfold left
    rw [hsteps, replay_append]
    split <;> rfl
  refine ⟨fun v k hk x hx => ?_, fun v m k hk => ?_, fun v m hfree => ?_, fun v m k hs => ?_,
    fun v hc => ?_, fun v m k hs => ?_, fun v m k hs x hx => ?_, fun v k => ?_⟩
  · rw [hsteps] at hx
    rcases List.mem_append.mp hx with hx | hx
    · exact hi.fresh v k (hnext ▸ hk) x hx
    · split at hx
      · exact List.mem_singleton.mp hx
      · simp at hx
  · rw [hfile] at hk
    rw [hcur, hbuf, hleft]
    by_cases hv : v = .chan c
    · simp [hv]
    · simpa [hv, Ne.symm hv] using hi.busy v m k hk
  · rw [hfile] at hfree
    rw [hcur, hbuf]
    by_cases hv : v = .chan c
    · simp [hv]
    · simpa [hv] using hi.free v m hfree
  · rw [hsource] at hs
    by_cases hv : v = .chan c
    · simp [hv] at hs
    · rw [if_neg hv] at hs
      rw [hfile, hbuf, hleft]
      simpa [hv, Ne.symm hv] using hi.source v m k hs
  · rw [hcur] at hc
    rw [hsource]
    by_cases hv : v = .chan c
    · simp [hv]
    · rw [if_neg hv] at hc ⊢
      exact hi.apart v hc
  · rw [hsource] at hs
    split at hs
    · cases hs
    · exact hnext ▸ hi.born v m k hs
  · rw [hsource] at hs
    split at hs
    · cases hs
    · exact hi.home v m k hs x (hfile ▸ hx)
  · have hans : answers v k s'.log = answers v k s.log := by
      rw [hlog, answers, List.filterMap_append]
      exact List.append_nil _
    rw [hans, hsteps, replay_append]
    have ha := hi.replayed v k
    split <;> simpa [replayStep] using ha

theorem Buffered.step (hi : Buffered s) (hw : Wf s) (hp : Pre P t a s)
    (hC : Drained ⟨t, a, r, s, s'⟩) (h : exec t a r s = some s') : Buffered s' := by
  cases a
  case recv n =>
    cases r with
    | chunk b => exact hi.recv_chunk hw hp h
    | again => exact hi.recv_empty hw hp h (by simp)
    | fin => exact hi.recv_empty hw hp h (by simp)
    | error => exact hi.recv_empty hw hp h (by simp)
  case decode n => exact hi.decode hp h
  case clearBuffer n => exact hi.clear hp h
  case newTracker c m =>
    refine hi.renew (c := c) (fun v m => ?_) (fun v => exec_cursor h v) (fun v => exec_source h v)
      (exec_file h) (exec_nextConn h) (exec_log h)
    rw [buffer_exec h]
    by_cases hv : v = .chan c <;> simp [After.rbuf, hv, St.buffer]
  case dropTracker c =>
    refine hi.renew (c := c) (fun v m => ?_) (fun v => exec_cursor h v) (fun v => exec_source h v)
      (exec_file h) (exec_nextConn h) (exec_log h)
    rw [buffer_exec h]
    by_cases hv : v = .chan c <;> simp [After.rbuf, hv, St.buffer]
  all_goals exact hi.keep hw hp hC h id

theorem buffered_init : Buffered (init P) := by
  refine ⟨fun v k _ x hx => absurd hx (by simp [init, steps]), fun v n k hk => ?_, fun v n _ => ?_,
    fun v n k hs => ?_, fun v _ => ?_, fun v n k hs => ?_, fun v n k hs => ?_, fun v k => rfl⟩
  · simp only [init] at hk
    split_ifs at hk <;> cases hk
  · cases v <;> exact .inl rfl
  · cases v <;> cases hs
  · cases v <;> rfl
  · cases v <;> cases hs
  · cases v <;> cases hs

end

/-- **No leak between connections.** On two runs in which every connection is closed with no bytes
of it in other servers: what a server decodes for a connection, frame by frame and error by error,
is the same if the server read the same bytes with the same boundaries, whoever had the number
before. -/
theorem decodes_alike (P : Params) {tr₁ tr₂ : List Ev} {c₁ c₂ : Config sig Srv St}
    (h₁ : (server P).Run (init P) tr₁ c₁) (h₂ : (server P).Run (init P) tr₂ c₂)
    (hC₁ : ∀ e ∈ tr₁, Drained e) (hC₂ : ∀ e ∈ tr₂, Drained e) (v : Srv) (k₁ k₂ : Nat)
    (heq : history v k₁ c₁.st.log = history v k₂ c₂.st.log) :
    answers v k₁ c₁.st.log = answers v k₂ c₂.st.log := by
  have hrun : ∀ {tr c}, (server P).Run (init P) tr c → (∀ e ∈ tr, Drained e) → Buffered c.st :=
    fun h hC => (run_invariant buffered_init
      (fun e hl hc hi => Buffered.step hi hl.wf hl.pre hc hl.exec) h hC).1
  calc answers v k₁ c₁.st.log
      = (replay (history v k₁ c₁.st.log)).2 := by
        rw [history, replay_dropWhile, (hrun h₁ hC₁).replayed]
    _ = (replay (history v k₂ c₂.st.log)).2 := by rw [heq]
    _ = answers v k₂ c₂.st.log := by rw [history, replay_dropWhile, (hrun h₂ hC₂).replayed]

/-! ## Concrete runs -/

/-- A server that made no call has nothing in its buffers. -/
theorem buffer_silent {P : Params} {v : Srv} {tr : List Ev} {c : Config sig Srv St}
    (h : (server P).Run (init P) tr c) (hv : ∀ e ∈ tr, e.tid ≠ v) :
    ∀ e ∈ tr, ∀ n, e.pre.buffer v n = [] := by
  have hall := (run_invariant (I := fun s => ∀ n, s.buffer v n = []) (C := fun e => e.tid ≠ v) ?_
    ?_ h hv).2
  · exact hall
  · intro n
    cases v <;> rfl
  · rintro ⟨t, a, r, s, s'⟩ hl ht hi n
    have hvt : v ≠ t := Ne.symm ht
    have hold : ((s.base v).rbuf n).getD [] = [] := hi n
    rw [buffer_exec hl.exec]
    cases a
    case recv m => cases r <;> simpa [After.rbuf, hvt] using hold
    case decode m => simpa [After.rbuf, hvt] using hold
    case clearBuffer m => simpa [After.rbuf, hvt] using hold
    case newTracker c m => by_cases hc : v = .chan c <;> simp [After.rbuf, hc, hold]
    case dropTracker c => by_cases hc : v = .chan c <;> simp [After.rbuf, hc, hold]
    all_goals exact hold

/-- `Drained` as far as the servers in `vs` are concerned. -/
def DrainedOn (vs : List Srv) (e : Ev) : Prop :=
  match e.act with
  | .close n => ∀ v ∈ vs, e.pre.buffer v n ≠ [] →
      v = e.tid ∧ (e.pre.base v).aux.cursor = some (n, .doomed)
  | .closeListener => ∀ v ∈ vs, e.pre.buffer v e.pre.listenFd = []
  | _ => True

instance (vs : List Srv) (e : Ev) : Decidable (DrainedOn vs e) := by
  obtain ⟨t, a, r, s, s'⟩ := e
  induction a using Act.casesOn
  case close n => exact inferInstanceAs (Decidable (∀ v ∈ vs, s.buffer v n ≠ [] →
    v = t ∧ (s.base v).aux.cursor = some (n, .doomed)))
  case closeListener => exact inferInstanceAs (Decidable (∀ v ∈ vs, s.buffer v s.listenFd = []))
  all_goals exact inferInstanceAs (Decidable True)

/-- The others made no call. -/
theorem drained_of_drainedOn {P : Params} {vs : List Srv} {tr : List Ev} {c : Config sig Srv St}
    (h : (server P).Run (init P) tr c) (htid : ∀ e ∈ tr, e.tid ∈ vs)
    (hon : ∀ e ∈ tr, DrainedOn vs e) : ∀ e ∈ tr, Drained e := by
  intro e he
  have hother : ∀ v, v ∉ vs → ∀ n, e.pre.buffer v n = [] :=
    fun v hv n => buffer_silent h (fun e' he' ht => hv (by rw [← ht]; exact htid e' he')) e he n
  have hd := hon e he
  obtain ⟨t, a, r, s, s'⟩ := e
  cases a
  case close n =>
    intro v hb
    by_cases hv : v ∈ vs
    · exact hd v hv hb
    · exact absurd (hother v hv n) hb
  case closeListener =>
    intro v
    by_cases hv : v ∈ vs
    · exact hd v hv
    · exact hother v hv _
  all_goals trivial

/-- A client sends `x` to the lobby and `y` to the channel it joined, and hangs up; the next client
gets its number and joins too. -/
def succession (x y : Bytes) : List (Turn Srv Input) :=
  [tick .lobby connects, tick .lobby (sends 5 x), tick (.chan 1) {},
    tick (.chan 1) (sends 5 y), tick (.chan 1) (hangsUp 5), tick .lobby connects,
    tick .lobby (sends 5 (joinFrame 1))]

/-- The first client joined channel 1 and was closed there, the second one has the number 5 and sent
the lobby a request to join. -/
def Succeeded (k : Config sig Srv St) : Prop :=
  .closed (.chan 1) 0 ∈ k.st.log ∧ k.st.file 5 = some (.conn 1) ∧
    history .lobby 1 k.st.log = [.read (joinFrame 1), .parse]

instance (k : Config sig Srv St) : Decidable (Succeeded k) := by
  unfold Succeeded
  infer_instance

/-- The first client sends a message in one run and rubbish in the other. -/
theorem decodes_alike_succession : ∃ tr₁ c₁ tr₂ c₂,
    (((server sample).Run (init sample) tr₁ c₁ ∧ Succeeded c₁) ∧
      ((server sample).Run (init sample) tr₂ c₂ ∧ Succeeded c₂) ∧
      answers (.chan 1) 0 c₁.st.log ≠ answers (.chan 1) 0 c₂.st.log) ∧
    answers .lobby 1 c₁.st.log = answers .lobby 1 c₂.st.log := by
  obtain ⟨tr₁, c₁, h₁, hs₁, ha₁, ht₁, hd₁⟩ : ∃ tr c, (server sample).Run (init sample) tr c ∧
      Succeeded c ∧ answers (.chan 1) 0 c.st.log = [(decodeFrames messageFrame).1] ∧
      (∀ e ∈ tr, e.tid ∈ [.lobby, .chan 1]) ∧ ∀ e ∈ tr, DrainedOn [.lobby, .chan 1] e :=
    exists_run (succession (joinFrame 1) messageFrame) (by decide +kernel)
  obtain ⟨tr₂, c₂, h₂, hs₂, ha₂, ht₂, hd₂⟩ : ∃ tr c, (server sample).Run (init sample) tr c ∧
      Succeeded c ∧ answers (.chan 1) 0 c.st.log = [.ok []] ∧
      (∀ e ∈ tr, e.tid ∈ [.lobby, .chan 1]) ∧ ∀ e ∈ tr, DrainedOn [.lobby, .chan 1] e :=
    exists_run (succession (joinFrame 1) (ascii "00")) (by decide +kernel)
  refine ⟨tr₁, c₁, tr₂, c₂, ⟨⟨h₁, hs₁⟩, ⟨h₂, hs₂⟩, ?_⟩, ?_⟩
  · rw [ha₁, ha₂]
    decide +kernel
  · exact decodes_alike sample h₁ h₂ (drained_of_drainedOn h₁ ht₁ hd₁)
      (drained_of_drainedOn h₂ ht₂ hd₂) .lobby 1 1 (hs₁.2.2.trans hs₂.2.2.symm)

/-- The first client sends two more characters behind its join in one run, and none in the other. The
lobby keeps them, and puts them in front of what the second client sends. -/
theorem decodes_differ : ∃ tr₁ c₁ tr₂ c₂,
    ((server sample).Run (init sample) tr₁ c₁ ∧ Succeeded c₁) ∧
    ((server sample).Run (init sample) tr₂ c₂ ∧ Succeeded c₂) ∧
    answers .lobby 1 c₁.st.log ≠ answers .lobby 1 c₂.st.log := by
  obtain ⟨tr₁, c₁, h₁, hs₁, ha₁⟩ : ∃ tr c, (server sample).Run (init sample) tr c ∧
      Succeeded c ∧ answers .lobby 1 c.st.log = [(decodeFrames (joinFrame 1)).1] :=
    exists_run (succession (joinFrame 1) messageFrame) (by decide +kernel)
  obtain ⟨tr₂, c₂, h₂, hs₂, ha₂⟩ : ∃ tr c, (server sample).Run (init sample) tr c ∧
      Succeeded c ∧ answers .lobby 1 c.st.log = [(decodeFrames (ascii "00" ++ joinFrame 1)).1] :=
    exists_run (succession (joinFrame 1 ++ ascii "00") messageFrame) (by decide +kernel)
  refine ⟨tr₁, c₁, tr₂, c₂, ⟨h₁, hs₁⟩, ⟨h₂, hs₂⟩, ?_⟩
  rw [ha₁, ha₂]
  decide +kernel

end ChatChannel
