import ChatChannel.Proof.Deletion
import ChatChannel.Proof.Discipline
import ChatChannel.Proof.Reply

/-!
# Presence events and membership

`resolve_pool` announces a change of the clients after it was made; `resolve_deletion` announces a leave
before it tries, and does not care whether the descriptor was a client. As long as it only ever visits
clients that epoll still knows, and the tracker never takes in a client twice, the announcements say who is
there (`presence_matches`).
-/

set_option autoImplicit false

namespace ChatChannel

open Conc

/-! ## Announcements -/

/-- A `join` or `rejoin` event. -/
def Entering (m : MessageReqDto) : Prop :=
  m.type = .system ∧ (m.text = ascii "join" ∨ m.text = ascii "rejoin")

/-- A `leave` event. -/
def Parting (m : MessageReqDto) : Prop := m.type = .system ∧ m.text = ascii "leave"

instance : DecidablePred Entering := fun m => by unfold Entering; infer_instance

instance : DecidablePred Parting := fun m => by unfold Parting; infer_instance

/-- The call pushes a message of the kind `φ` for the descriptor. -/
def announces (φ : MessageReqDto → Prop) [DecidablePred φ] (n : Fd) : Call sig → Bool
  | ⟨.pushMq k m, _⟩ => decide (k = n ∧ φ m)
  | _ => false

/-- The joins and rejoins announced for the descriptor, less the leaves. -/
def balance (n : Fd) (h : Hist sig) : Int :=
  (h.countP (announces Entering n) : Int) - h.countP (announces Parting n)

section

variable {c : ChId} {n k : Fd} {m : MessageReqDto} {a : Act} {r : Res a} {h : Hist sig}
  {s s' : St}

theorem Entering.not_parting (hm : Entering m) : ¬ Parting m := by
  rintro ⟨-, htext⟩
  rcases hm.2 with hjoin | hjoin
  · rw [hjoin] at htext
    exact absurd htext (by decide)
  · rw [hjoin] at htext
    exact absurd htext (by decide)

theorem countP_snoc (p : Call sig → Bool) (e : Call sig) :
    (h ++ [e]).countP p = h.countP p + if p e then 1 else 0 := by
  rw [List.countP_append, List.countP_singleton]

theorem balance_enter (hm : Entering m) (u : Unit) :
    balance n (h ++ [⟨.pushMq k m, u⟩]) = balance n h + if n = k then 1 else 0 := by
  unfold balance
  rw [countP_snoc, countP_snoc]
  by_cases hk : n = k
  · simp [announces, hm, hm.not_parting, hk]
    omega
  · simp [announces, hk, Ne.symm hk]

theorem balance_part (hm : Parting m) (u : Unit) :
    balance n (h ++ [⟨.pushMq k m, u⟩]) = balance n h - if n = k then 1 else 0 := by
  have hno : ¬ Entering m := fun hj => hj.not_parting hm
  unfold balance
  rw [countP_snoc, countP_snoc]
  by_cases hk : n = k
  · simp [announces, hm, hno, hk]
    omega
  · simp [announces, hk, Ne.symm hk]

/-! ## What a tick does besides -/

/-- The calls of a worker's tick. -/
def Ticking : Act → Prop
  | .newTracker _ _ | .dropTracker _ | .newSession _ _ | .pushBack _ _ _ | .pushFront _ _ _
  | .emplaceJoin _ _ _ | .emplaceLeave _ _ _ => False
  | _ => True

/-- Of these, the ones that neither change the clients nor announce a change. -/
def Discreet : Act → Prop
  | .addClient _ | .deleteClient _ => False
  | .pushMq _ m => m.type = .user
  | a => Ticking a

theorem Discreet.ticking (ha : Discreet a) : Ticking a := by
  cases a <;> first | exact trivial | exact ha

theorem balance_discreet (ha : Discreet a) : balance n (h ++ [⟨a, r⟩]) = balance n h := by
  have hsilent : ∀ φ : MessageReqDto → Prop, [DecidablePred φ] → (∀ m, φ m → m.type = .system) →
      announces φ n ⟨a, r⟩ = false := by
    intro φ _ hφ
    cases a
    case pushMq k m =>
      have hm : ¬ φ m := fun h => by
        have hsys := hφ m h
        rw [show m.type = .user from ha] at hsys
        cases hsys
      simp [announces, hm]
    all_goals rfl
  unfold balance
  rw [countP_snoc, countP_snoc, hsilent Entering fun m hm => hm.1, hsilent Parting fun m hm => hm.1]
  simp

theorem balance_unheard (ha : ∀ k m, a ≠ .pushMq k m) : balance n (h ++ [⟨a, r⟩]) = balance n h := by
  have hsilent : ∀ φ : MessageReqDto → Prop, [DecidablePred φ] → announces φ n ⟨a, r⟩ = false := by
    intro φ _
    cases a
    case pushMq k m => exact absurd rfl (ha k m)
    all_goals rfl
  unfold balance
  rw [countP_snoc, countP_snoc, hsilent, hsilent]
  simp

/-- The pools hold the events that `join_and_logging` and `leave_and_logging` put there, and the tasks are
the ones the constructors push. -/
structure Orderly (c : ChId) (s : St) : Prop where
  tasks : (s.base (.chan c)).runner = bootTasks ∨ (s.base (.chan c)).runner = channelTasks
  joins : ∀ p ∈ (s.chan c).joinPool, Entering p.2
  leaves : ∀ p ∈ (s.chan c).leavePool, Parting p.2

theorem Orderly.step (hs : Orderly c s) (ha : Ticking a)
    (hx : exec (.chan c) a r s = some s') : Orderly c s' := by
  refine ⟨?_, fun p hp => ?_, fun p hp => ?_⟩
  · rw [exec_runner hx]
    cases a <;> first | exact hs.tasks | exact ha.elim
  · rw [exec_joinPool hx] at hp
    cases a
    case takeJoinPool => simp [After.joinPool, own] at hp
    all_goals first | exact hs.joins p hp | exact ha.elim
  · rw [exec_leavePool hx] at hp
    cases a
    case takeLeavePool => simp [After.leavePool, own] at hp
    all_goals first | exact hs.leaves p hp | exact ha.elim

theorem clients_discreet (ha : Discreet a) (hx : exec (.chan c) a r s = some s') :
    (s'.base (.chan c)).clients = (s.base (.chan c)).clients := by
  rw [exec_clients hx]
  cases a <;> first | rfl | exact ha.elim

end

/-! ## The announcements and the clients -/

/-- What the other threads do while the channel's worker runs, or between two of its ticks: the clients are
the worker's own. -/
structure Meanwhile (c : ChId) (s s' : St) : Prop where
  clients : (s'.base (.chan c)).clients = (s.base (.chan c)).clients
  cursor : (s'.base (.chan c)).aux.cursor = (s.base (.chan c)).aux.cursor
  orderly : Orderly c s → Orderly c s'

/-- What has to hold before a call: the tracker does not take in a client again, nor let go of what is no
client, and what `resolve_deletion` has announced is a client that can be deleted. -/
def Fit (c : ChId) : Act → St → Prop
  | .addClient n, s => n ∈ (s.base (.chan c)).clients →
      s.addRefused (.chan c) n ∨ s.isFull (.chan c) ∨ s.addImpossible (.chan c) n
  | .deleteClient n, s =>
    if (s.base (.chan c)).aux.cursor = some (n, .picked) then
      n ∈ (s.base (.chan c)).clients ∧ s.deletable (.chan c) n
    else s.deletable (.chan c) n → n ∈ (s.base (.chan c)).clients
  | _, _ => True

theorem Fit.member {c : ChId} {n : Fd} {s : St} (hf : Fit c (.deleteClient n) s)
    (hd : s.deletable (.chan c) n) : n ∈ (s.base (.chan c)).clients := by
  rw [Fit] at hf
  split at hf
  · exact hf.1
  · exact hf hd

instance (c : ChId) (a : Act) (s : St) : Decidable (Fit c a s) := by
  apply a.casesOn (motive := fun a => Decidable (Fit c a s)) <;> intros <;> unfold Fit <;>
    infer_instance

/-- The worker of the channel, as long as it makes calls that fit only. -/
def fitting (c : ChId) (rely : St → St → Prop) : Solo sig St :=
  (lone (.chan c) rely).restrict (Fit c)

/-- The announcements say who is a client, but for the changes `owed`. -/
structure Owing (c : ChId) (owed : Fd → Int) (h : Hist sig) (s : St) : Prop where
  orderly : Orderly c s
  balance : ∀ n, balance n h + owed n = if n ∈ (s.base (.chan c)).clients then 1 else 0

/-- Nothing is owed. -/
def InStep (c : ChId) : Hist sig → St → Prop := Owing c fun _ => 0

/-- A change for one descriptor. -/
def oneFor (n : Fd) (i : Int) (k : Fd) : Int := if k = n then i else 0

section

variable {P : Params} {c : ChId} {rely : St → St → Prop} {α : Type} {p : Code α} {n : Fd}
  {owed : Fd → Int} {E : Err → Hist sig → St → Prop}

theorem Owing.keep {h : Hist sig} {s s' : St} (hs : Owing c owed h s) (hr : Meanwhile c s s') :
    Owing c owed h s' :=
  ⟨hr.orderly hs.orderly, fun n => by rw [hr.clients]; exact hs.balance n⟩

theorem stable_owing (hrely : ∀ s s', rely s s' → Meanwhile c s s') :
    (fitting c rely).Stable (Owing c owed) := fun _ s s' hs hr => hs.keep (hrely s s' hr)

theorem Owing.discreet {a : Act} {r : Res a} {h : Hist sig} {s s' : St} (hs : Owing c owed h s)
    (ha : Discreet a) (hx : exec (.chan c) a r s = some s') : Owing c owed (h ++ [⟨a, r⟩]) s' := by
  refine ⟨hs.orderly.step ha.ticking hx, fun n => ?_⟩
  rw [balance_discreet ha, clients_discreet ha hx]
  exact hs.balance n

/-- What makes no other calls changes nothing. -/
theorem exec_discreet (hrely : ∀ s s', rely s s' → Meanwhile c s s') (hp : p.All Discreet) :
    (fitting c rely).Triple (Owing c owed) p (fun _ => Owing c owed) fun _ => Owing c owed :=
  .keep (stable_owing hrely) hp fun _ _ _ _ _ ha hs hx => hs.discreet ha hx.2

theorem exec_quietly (hrely : ∀ s s', rely s s' → Meanwhile c s s') {a : Act} (ha : Discreet a) :
    (fitting c rely).Triple (Owing c owed) (call a) (fun _ => Owing c owed) E :=
  .perform (stable_owing hrely) fun _ _ _ _ hs hx => hs.discreet ha hx.2

/-- A loop whose rounds each keep the announcements in step. -/
theorem exec_each {β : Type} {φ : β → Prop} {f : β → Code Unit} {l : List β} (hl : ∀ x ∈ l, φ x)
    (hf : ∀ x, φ x → (fitting c rely).Triple (InStep c) (f x) (fun _ => InStep c) E) :
    (fitting c rely).Triple (InStep c) (Prog.forEach f l) (fun _ => InStep c) E := by
  induction l with
  | nil => exact .ret fun _ _ hs => hs
  | cons x l ih =>
    exact .bind (hf x (hl x List.mem_cons_self)) fun _ =>
      ih fun y hy => hl y (List.mem_cons_of_mem x hy)

/-- A call that announces nothing and changes the clients. -/
theorem Owing.change {a : Act} {r : Res a} {h : Hist sig} {s s' : St} {owed' : Fd → Int}
    (hs : Owing c owed h s) (ht : Ticking a) (ha : ∀ k m, a ≠ .pushMq k m)
    (hx : exec (.chan c) a r s = some s')
    (hc : ∀ k, (if k ∈ (s'.base (.chan c)).clients then 1 else 0 : Int) =
      (if k ∈ (s.base (.chan c)).clients then 1 else 0) - owed k + owed' k) :
    Owing c owed' (h ++ [⟨a, r⟩]) s' := by
  refine ⟨hs.orderly.step ht hx, fun k => ?_⟩
  rw [balance_unheard ha, hc, ← hs.balance k]
  omega

/-! ### `resolve_pool` -/

theorem exec_add (hrely : ∀ s s', rely s s' → Meanwhile c s s') :
    (fitting c rely).Triple (InStep c) (trackerAdd n) (fun _ => Owing c (oneFor n 1))
      fun _ => InStep c := by
  refine .bind (Q := fun y h s => if y = .ok then Owing c (oneFor n 1) h s else InStep c h s)
    (.perform (stable_owing hrely) fun y h s s' hs hx => ?_) fun y => ?_
  · obtain ⟨hfit, hx⟩ := hx
    have hclients := exec_clients hx (.chan c)
    rw [After.clients, if_pos rfl] at hclients
    split
    · rename_i hok
      subst hok
      rw [if_pos rfl] at hclients
      -- what could be added was no client
      have hnew : n ∉ (s.base (.chan c)).clients := by
        intro hin
        obtain ⟨⟨hr, hf, hi⟩, -⟩ := need_eq_some.mp hx
        rcases hfit hin with h | h | h
        · exact hr h
        · exact hf h
        · exact hi h
      refine hs.change trivial (fun _ _ h => by cases h) hx fun k => ?_
      rw [hclients, oneFor]
      by_cases hk : k = n
      · subst hk
        simp [hnew]
      · simp [hk]
    · rename_i hno
      rw [if_neg hno] at hclients
      refine hs.change trivial (fun _ _ h => by cases h) hx fun k => ?_
      rw [hclients]
      simp
  · cases y with
    | ok => exact .ret fun _ _ hs => hs
    | full | failed => exact .raise fun _ _ hs => hs

theorem exec_delete (hrely : ∀ s s', rely s s' → Meanwhile c s s') :
    (fitting c rely).Triple (InStep c) (trackerDelete n) (fun _ => Owing c (oneFor n (-1)))
      fun _ => InStep c := by
  refine .bind (Q := fun y h s => if y = true then Owing c (oneFor n (-1)) h s else InStep c h s)
    (.perform (stable_owing hrely) fun y h s s' hs hx => ?_) fun y => ?_
  · obtain ⟨hfit, hx⟩ := hx
    have hclients := exec_clients hx (.chan c)
    rw [After.clients, if_pos rfl] at hclients
    split
    · rename_i hok
      subst hok
      rw [if_pos rfl] at hclients
      have hin : n ∈ (s.base (.chan c)).clients := hfit.member (need_eq_some.mp hx).1
      refine hs.change trivial (fun _ _ h => by cases h) hx fun k => ?_
      rw [hclients, oneFor]
      by_cases hk : k = n
      · subst hk
        simp [hin]
      · simp [hk]
    · rename_i hno
      rw [if_neg hno] at hclients
      refine hs.change trivial (fun _ _ h => by cases h) hx fun k => ?_
      rw [hclients]
      simp
  · cases y with
    | true => exact .ret fun _ _ hs => hs
    | false => exact .raise fun _ _ hs => hs

/-- A join is announced once the tracker has taken the descriptor in. -/
theorem exec_admit (hrely : ∀ s s', rely s s' → Meanwhile c s s') {x : Fd × MessageReqDto}
    (hx : Entering x.2) :
    (fitting c rely).Triple (InStep c) (admitOne x) (fun _ => InStep c) E := by
  refine .handle (.bind (exec_add hrely) fun _ => .perform (stable_owing hrely)
    fun u h s s' hs hy => ?_) fun _ => .ret fun _ _ hs => hs
  refine ⟨hs.orderly.step (a := .pushMq x.1 x.2) trivial hy.2, fun k => ?_⟩
  rw [balance_enter hx, exec_clients hy.2, Int.add_zero]
  exact hs.balance k

/-- A leave is announced once the tracker has let go of the descriptor. -/
theorem exec_dismiss (hrely : ∀ s s', rely s s' → Meanwhile c s s') {x : Fd × MessageReqDto}
    (hx : Parting x.2) :
    (fitting c rely).Triple (InStep c) (dismissOne x) (fun _ => InStep c) E := by
  refine .handle (.bind (exec_delete hrely) fun _ => .perform (stable_owing hrely)
    fun u h s s' hs hy => ?_) fun _ => .ret fun _ _ hs => hs
  refine ⟨hs.orderly.step (a := .pushMq x.1 x.2) trivial hy.2, fun k => ?_⟩
  have hclients : (s'.base (.chan c)).clients = (s.base (.chan c)).clients :=
    exec_clients hy.2 (.chan c)
  rw [balance_part hx, hclients, ← hs.balance k, oneFor]
  split <;> omega

theorem exec_pools (hrely : ∀ s s', rely s s' → Meanwhile c s s') :
    (fitting c rely).Triple (InStep c) (resolvePoolBody c) (fun _ => InStep c)
      fun _ => InStep c := by
  have hend : (do
      if (← call .getClientCount) = 0 then
        if ← call .joinPoolEmpty then
          call (.storeStop c true)
          let now ← call .systemNow
          call (.storeEmptySince c now) : Code Unit).All Discreet := by
    refine .bind (.perform trivial) fun k => ?_
    split
    · refine .bind (.perform trivial) fun b => ?_
      split
      · exact .bind (.perform trivial) fun _ => .bind (.perform trivial) fun _ => .perform trivial
      · trivial
    · trivial
  refine .bind (Q := fun joins h s => (∀ x ∈ joins, Entering x.2) ∧ InStep c h s) ?_ fun joins =>
    .pure fun hjoins => .bind (Q := fun _ => InStep c) ?_ fun _ => .bind
      (Q := fun leaves h s => (∀ x ∈ leaves, Parting x.2) ∧ InStep c h s) ?_ fun leaves =>
        .pure fun hleaves => .bind (Q := fun _ => InStep c) ?_ fun _ => exec_discreet hrely hend
  · refine .perform (stable_owing hrely) fun joins h s s' hs hx => ⟨fun x hx' => ?_,
      hs.discreet trivial hx.2⟩
    have hperm := (need_eq_some.mp hx.2).1
    exact hs.orderly.joins x (hperm.mem_iff.mp hx')
  · exact exec_each hjoins fun x hx => exec_admit hrely hx
  · refine .perform (stable_owing hrely) fun leaves h s s' hs hx => ⟨fun x hx' => ?_,
      hs.discreet trivial hx.2⟩
    have hperm := (need_eq_some.mp hx.2).1
    exact hs.orderly.leaves x (hperm.mem_iff.mp hx')
  · exact exec_each hleaves fun x hx => exec_dismiss hrely hx

/-! ### `resolve_deletion` -/

/-- `resolve_deletion` is at the descriptor, and has not tried to delete it. -/
def Marked (c : ChId) (n : Fd) (owed : Fd → Int) (h : Hist sig) (s : St) : Prop :=
  Owing c owed h s ∧ (s.base (.chan c)).aux.cursor = some (n, .picked)

theorem stable_marked (hrely : ∀ s s', rely s s' → Meanwhile c s s') :
    (fitting c rely).Stable (Marked c n owed) := fun _ s s' hs hr =>
  have hr := hrely s s' hr
  ⟨hs.1.keep hr, hr.cursor.trans hs.2⟩

/-- The calls it makes until then. -/
def Asks (a : Act) : Prop := a = .systemNow ∨ ∃ n, a = .getUserName n

theorem exec_asks (hrely : ∀ s s', rely s s' → Meanwhile c s s') {a : Act} (ha : Asks a) :
    (fitting c rely).Triple (Marked c n owed) (call a) (fun _ => Marked c n owed) E := by
  refine .perform (stable_marked hrely) fun r h s s' hs hx => ?_
  obtain ⟨howing, hcursor⟩ := hs
  rcases ha with rfl | ⟨k, rfl⟩
  · exact ⟨howing.discreet trivial hx.2, (exec_cursor hx.2 (.chan c)).trans hcursor⟩
  · exact ⟨howing.discreet trivial hx.2, (exec_cursor hx.2 (.chan c)).trans hcursor⟩

/-- The leave is announced, and then the client is deleted. -/
theorem exec_remove (hrely : ∀ s s', rely s s' → Meanwhile c s s') :
    (fitting c rely).Triple (Marked c n (oneFor n 1)) (trackerDelete n) (fun _ => InStep c) E := by
  refine .bind (Q := fun b h s => b = true ∧ InStep c h s)
    (.perform (stable_marked hrely) fun b h s s' hs hx => ?_) fun b => .pure fun hb => ?_
  · obtain ⟨howing, hcursor⟩ := hs
    obtain ⟨hfit, hx⟩ := hx
    obtain ⟨hin, hd⟩ : n ∈ (s.base (.chan c)).clients ∧ s.deletable (.chan c) n := by
      rwa [Fit, if_pos hcursor] at hfit
    obtain rfl : b = true := by
      cases b with
      | true => rfl
      | false => exact absurd hd (need_eq_some.mp hx).1
    refine ⟨rfl, howing.change trivial (fun _ _ h => by cases h) hx fun k => ?_⟩
    rw [exec_clients hx (.chan c), After.clients, if_pos rfl, if_pos rfl, oneFor]
    by_cases hk : k = n
    · subst hk
      simp [hin]
    · simp [hk]
  · subst hb
    exact .ret fun _ _ hs => hs

theorem exec_farewell (hrely : ∀ s s', rely s s' → Meanwhile c s s') (n : Fd) :
    (fitting c rely).Triple (InStep c) (channelVisit c n) (fun _ => InStep c) fun _ => InStep c := by
  have hforget : (do
      call (.removeUserName n)
      call (.close n)
      call (.clearBuffer n) : Code Unit).All Discreet :=
    .bind (.perform trivial) fun _ => .bind (.perform trivial) fun _ => .perform trivial
  refine .bind (Q := fun _ => Marked c n fun _ => 0) ?_ fun _ => .bind (exec_asks hrely (.inl rfl))
    fun ts => .bind (exec_asks hrely (.inr ⟨n, rfl⟩)) fun u =>
      .bind (Q := fun _ => Marked c n (oneFor n 1)) ?_ fun _ => .bind (Q := fun _ => InStep c)
        (.handle (exec_remove (E := fun _ _ _ => False) hrely) fun _ h s hs => hs.elim) fun _ =>
          exec_discreet hrely hforget
  · refine .perform (stable_owing hrely) fun r h s s' hs hx => ⟨hs.discreet trivial hx.2, ?_⟩
    rw [exec_cursor hx.2, After.cursor, if_pos rfl]
    rfl
  · refine .perform (stable_marked hrely) fun r h s s' hs hx => ?_
    obtain ⟨howing, hcursor⟩ := hs
    have hleave : Parting (sysMsg c (ascii "leave") ts (u.getD (ascii "unknown"))) := ⟨rfl, rfl⟩
    have hclients : (s'.base (.chan c)).clients = (s.base (.chan c)).clients :=
      exec_clients hx.2 (.chan c)
    refine ⟨⟨howing.orderly.step (a := .pushMq n _) trivial hx.2, fun k => ?_⟩,
      (exec_cursor hx.2 (.chan c)).trans hcursor⟩
    rw [balance_part hleave, hclients, ← howing.balance k, oneFor]
    split <;> omega

/-! ### The tick -/

theorem discreet_channelOnReq (js : Jansson) (target : Bytes) (root : js.Json) :
    (channelOnReq js c n target root).All Discreet := by
  unfold channelOnReq
  split
  · unfold chatOnReq
    split
    · cases unpackMessage js root with
      | none => trivial
      | some q =>
        refine .bind (.perform trivial) fun o => ?_
        cases o
        · trivial
        · exact .perform rfl
    · trivial
  · split
    · cases unpackChannelJoin js root with
      | none => trivial
      | some q =>
        dsimp only
        split
        · trivial
        · exact .bind (.perform trivial) fun _ => .perform trivial
    · trivial

theorem discreet_handleEvents (ev : PollEv) : (handleEvents P (.chan c) ev).All Discreet := by
  have hread (n : Fd) : (onRecv P (.chan c) n).All Discreet := by
    refine .handle (.bind ((fromWire_recvFrame P n).mono fun a ha => ?_) fun fs =>
      .bind (.forEach (fun f => ?_) fs) fun _ => .perform trivial) fun e =>
        .bind (.perform trivial) fun _ => .perform trivial
    · cases a <;> first | exact trivial | exact ha.elim
    · refine .bind (.perform trivial) fun _ => ?_
      cases requestOf P.js f with
      | none => trivial
      | some q => exact discreet_channelOnReq P.js q.1 q.2
  refine .bind (.perform trivial) fun b => ?_
  cases b with
  | true =>
    refine .bind (.perform trivial) fun o => ?_
    cases o <;> trivial
  | false =>
    simp only [Bool.false_eq_true, if_false]
    split
    · exact .perform trivial
    · split
      · exact hread ev.fd
      · trivial

theorem discreet_chatTask (js : Jansson) : (chatTask js).All Discreet := by
  refine .bind (.bind (.perform trivial) fun q => .forEach (fun _ => .perform trivial) q) fun _ =>
    .bind (.perform trivial) fun cur => ?_
  split
  · trivial
  · exact .bind (.perform trivial) fun l => .bind (all_broadcast _ l fun _ _ _ => trivial)
      fun failed => .forEach (fun _ => .perform trivial) failed

/-- Every task of a channel leaves the announcements in step. -/
theorem exec_announcing (hrely : ∀ s s', rely s s' → Meanwhile c s s') {x : Task}
    (hx : x ∈ channelTasks.flatten) :
    (fitting c rely).Triple (InStep c) (runTask P (.chan c) x) (fun _ => InStep c)
      fun _ => InStep c := by
  have hx : x = .clearDeletion ∨ x = .clearCurMsgs ∨ x = .polling ∨ x = .handleEvents ∨
      x = .resolvePool ∨ x = .chat ∨ x = .resolveDeletion := by simpa [channelTasks] using hx
  rcases hx with rfl | rfl | rfl | rfl | rfl | rfl | rfl
  · exact exec_quietly hrely trivial
  · exact exec_quietly hrely trivial
  · refine exec_discreet hrely (.bind (.perform trivial) fun o => ?_)
    cases o <;> trivial
  · exact exec_discreet hrely (.bind (.perform trivial) fun evs =>
      .forEach discreet_handleEvents evs)
  · exact .bind (exec_quietly hrely trivial) fun _ => .bind (.handle (exec_pools hrely) fun e =>
      .bind (exec_quietly hrely trivial) fun _ => .raise fun _ _ hs => hs) fun _ =>
        exec_quietly hrely trivial
  · exact exec_discreet hrely (discreet_chatTask P.js)
  · have hround : (fitting c rely).Triple (InStep c) (resolveDeletion (.chan c))
        (fun _ => InStep c) fun _ => InStep c := by
      rw [resolveDeletion_eq]
      exact .bind (exec_quietly hrely trivial) fun l => .bind (exec_each (φ := fun _ => True)
        (fun _ _ => trivial) fun n _ => exec_farewell hrely n) fun _ => exec_quietly hrely trivial
    exact hround

theorem exec_announced (hrely : ∀ s s', rely s s' → Meanwhile c s s') :
    (fitting c rely).Triple (InStep c) (run P (.chan c)) (fun _ => InStep c) fun _ => InStep c := by
  have htasks {l : List (List Task)} (hl : l = bootTasks ∨ l = channelTasks) :
      (fitting c rely).Triple (InStep c) (Prog.forEach (Prog.forEach (runTask P (.chan c))) l)
        (fun _ => InStep c) fun _ => InStep c := by
    have hsub : ∀ session ∈ l, ∀ x ∈ session, x ∈ channelTasks.flatten := by
      rcases hl with rfl | rfl <;> decide
    exact exec_each (φ := fun session => ∀ x ∈ session, x ∈ channelTasks.flatten) hsub
      fun session hs => exec_each hs fun x hx => exec_announcing hrely hx
  refine .bind (Q := fun l h s => (l = bootTasks ∨ l = channelTasks) ∧ InStep c h s)
    (.perform (stable_owing hrely) fun l h s s' hs hx => ⟨?_, hs.discreet trivial hx.2⟩) fun l =>
      .pure fun hl => .bind (.handle (htasks hl) fun e => .bind (exec_quietly hrely trivial) fun _ =>
        .raise fun _ _ hs => hs) fun _ => exec_quietly hrely trivial
  obtain ⟨⟨rfl, -⟩, -⟩ := need_eq_some.mp hx.2
  exact hs.orderly.tasks

end

/-- **Presence events match membership** after any number of ticks that made fitting calls only. -/
theorem presence_matches {P : Params} {c : ChId} {rely : St → St → Prop} {s s' : St} {es : Hist sig}
    (hrely : ∀ s s', rely s s' → Meanwhile c s s') (horderly : Orderly c s)
    (hempty : (s.base (.chan c)).clients = ∅)
    (hx : (fitting c rely).Repeats (run P (.chan c)) s es s') (n : Fd) :
    balance n es = if n ∈ (s'.base (.chan c)).clients then 1 else 0 := by
  have hstart : InStep c [] s := ⟨horderly, fun n => by rw [hempty]; rfl⟩
  have hend := Solo.Repeats.invariant (stable_owing hrely) (exec_announced hrely) hx hstart
  rw [List.nil_append] at hend
  rw [← hend.balance n, Int.add_zero]

/-- A new channel that the lobby has sent the client behind descriptor 5 to. -/
def expecting : St :=
  ((((init sample).openFile 5 (.conn 0)).openFile 6 (.epoll {lobbyListener})).onBase (.chan 1) fun b =>
    { b with efd := 6, runner := channelTasks }).onChan 1 fun ch =>
      { ch with joinPool := [(5, sysMsg 1 (ascii "join") 1 (ascii "ann"))] }

theorem orderly_expecting : Orderly 1 expecting := ⟨.inr rfl, by decide, by decide⟩

theorem Meanwhile.refl (c : ChId) (s : St) : Meanwhile c s s := ⟨rfl, rfl, fun h => h⟩

theorem presence_matches_arrival : ∃ es s', (fitting 1 (Meanwhile 1)).Repeats
      (run sample (.chan 1)) expecting es s' ∧ 5 ∈ (s'.base (.chan 1)).clients ∧ balance 5 es = 1 := by
  obtain ⟨es, out, s', hx, hin⟩ : ∃ es out s', (fitting 1 (Meanwhile 1)).Exec (run sample (.chan 1))
      expecting es out s' ∧ 5 ∈ (s'.base (.chan 1)).clients :=
    exists_restricted (.refl 1) (choose (.chan 1)) {} (by decide +kernel)
  have hticks : (fitting 1 (Meanwhile 1)).Repeats (run sample (.chan 1)) expecting (es ++ []) s' :=
    .again (.refl 1 expecting) hx (.done s')
  refine ⟨es ++ [], s', hticks, hin, ?_⟩
  rw [presence_matches (fun _ _ h => h) orderly_expecting rfl hticks 5, if_pos hin]

/-- The lobby takes the client out again, because it wants to be somewhere else. -/
def recalled (s : St) : St :=
  s.onChan 1 fun ch => { ch with leavePool := [(5, sysMsg 1 (ascii "leave") 2 (ascii "ann"))] }

theorem meanwhile_recalled (s : St) : Meanwhile 1 s (recalled s) where
  clients := rfl
  cursor := rfl
  orderly h := ⟨h.tasks, h.joins, fun p hp => by
    rw [List.mem_singleton.mp hp]
    exact ⟨rfl, rfl⟩⟩

/-- A client that is to leave and whose connection breaks in the same tick leaves twice. -/
theorem leaves_twice : ∃ es s', (lone (.chan 1) (Meanwhile 1)).Repeats (run sample (.chan 1)) expecting
      es s' ∧ Orderly 1 expecting ∧ (expecting.base (.chan 1)).clients = ∅ ∧
    ¬ balance 5 es = if 5 ∈ (s'.base (.chan 1)).clients then 1 else 0 := by
  obtain ⟨es, out, s₁, hx, hy⟩ : ∃ es out s₁, (lone (.chan 1) (Meanwhile 1)).Exec
      (run sample (.chan 1)) expecting es out s₁ ∧
        (executed (.chan 1) (run sample (.chan 1)) (recalled s₁) (hangsUp 5)).any (fun y =>
          decide (¬ balance 5 (es ++ (y.1 ++ [])) =
            if 5 ∈ (y.2.2.base (.chan 1)).clients then 1 else 0)) = true :=
    exists_exec (.refl 1) {} (by decide +kernel)
  obtain ⟨es', out', s', hz, hne⟩ : ∃ es' out' s', (lone (.chan 1) (Meanwhile 1)).Exec
      (run sample (.chan 1)) (recalled s₁) es' out' s' ∧ ¬ balance 5 (es ++ (es' ++ [])) =
        if 5 ∈ (s'.base (.chan 1)).clients then 1 else 0 := exists_exec (.refl 1) (hangsUp 5) hy
  exact ⟨es ++ (es' ++ []), s', .again (.refl 1 expecting) hx
    (.again (meanwhile_recalled s₁) hz (.done s')), orderly_expecting, rfl, hne⟩

end ChatChannel
