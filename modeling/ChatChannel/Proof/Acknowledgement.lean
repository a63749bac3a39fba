import ChatChannel.Proof.Batches
import ChatChannel.Proof.Broadcast
import ChatChannel.Proof.Founding
import ChatChannel.Proof.Order

/-!
# Joiners are acknowledged

A client that has asked for a channel waits for the window that says so. One pass over the tasks under
`TS_LOGIC` takes it in, queues its event, puts the queue in order and sends the window to the clients the
tracker has then: whoever became one in this pass is sent its own event, and whoever was taken out is
sent nothing (`joiners_acknowledged`).
-/

set_option autoImplicit false

namespace ChatChannel

open Conc

/-! ## How a pool was filled -/

/-- What `join_and_logging` announces of user `u`. -/
def JoinEvent (c : ChId) (u : Bytes) (m : MessageReqDto) : Prop :=
  ∃ timestamp, ∃ re : Bool, m = sysMsg c (if re then ascii "rejoin" else ascii "join") timestamp u

/-- While the lobby calls `join_and_logging` for `n`, nobody else changes its name or the pool. -/
def Unshared (c : ChId) (n : Fd) (s s' : St) : Prop :=
  s'.names n = s.names n ∧ (s'.chan c).joinPool = (s.chan c).joinPool

/-- How the pool of `c` came about. `names` are the names that were registered for the descriptors when
they entered it. -/
inductive Filled (c : ChId) : (Fd → Option Bytes) → St → Prop
  | empty {names : Fd → Option Bytes} {s : St} : (s.chan c).joinPool = [] → Filled c names s
  | apart {names : Fd → Option Bytes} {s s' : St} : Filled c names s →
      (s'.chan c).joinPool = (s.chan c).joinPool → Filled c names s'
  | join {names : Fd → Option Bytes} {s s' : St} {n : Fd} {timestamp : Msec64} {re : Bool}
      {es : Hist sig} {out : Except Err Unit} : Filled c names s →
      (lone .lobby (Unshared c n)).Exec (joinAndLogging c n timestamp re) s es out s' →
      Filled c (if n ∈ keys (s.chan c).joinPool then names else Function.update names n (s.names n)) s'

/-- Every entry announces the user whose name was registered for it. -/
def Listed (c : ChId) (names : Fd → Option Bytes) (pool : List (Fd × MessageReqDto)) : Prop :=
  ∀ p ∈ pool, ∃ u, names p.1 = some u ∧ JoinEvent c u p.2

/-- Other threads leave the clients and the messages of `c` alone, and fill its pool as before. -/
structure Bystanding (c : ChId) (names : Fd → Option Bytes) (s s' : St) : Prop where
  clients : (s'.base (.chan c)).clients = (s.base (.chan c)).clients
  mq : (s'.chan c).mq = (s.chan c).mq
  curMsgs : (s'.chan c).curMsgs = (s.chan c).curMsgs
  filled : Filled c names s → Filled c names s'

/-- The window `w` tells of a join or rejoin of user `u` to channel `c`. -/
def Acknowledges (js : Jansson) (c : ChId) (u w : Bytes) : Prop :=
  ∃ l v text timestamp, js.dumpArray l = some w ∧ v ∈ l ∧ (text = ascii "join" ∨ text = ascii "rejoin") ∧
    js.pack [(ascii "type", .str (ascii "system")), (ascii "user_name", .str u), (ascii "event", .str text),
      (ascii "timestamp", .int timestamp), (ascii "channel_id", .int c.toNat)] = some v

section

variable {P : Params} {c : ChId} {names : Fd → Option Bytes} {n : Fd} {s s' : St} {h : Hist sig}
  {a : Act} {r : Res a}

/-- A descriptor enters the pool under its name, or the pool stays as it is. -/
theorem exec_enters {timestamp : Msec64} {re : Bool} {es : Hist sig} {out : Except Err Unit}
    (hx : (lone .lobby (Unshared c n)).Exec (joinAndLogging c n timestamp re) s es out s') :
    (s'.chan c).joinPool = (s.chan c).joinPool ∨ ∃ u m, s.names n = some u ∧ JoinEvent c u m ∧
      (s'.chan c).joinPool = emplace n m (s.chan c).joinPool := by
  let W := lone .lobby (Unshared c n)
  let A : Hist sig → St → Prop := fun _ s₁ =>
    s₁.names n = s.names n ∧ (s₁.chan c).joinPool = (s.chan c).joinPool
  let B : Hist sig → St → Prop := fun _ s₁ => (s₁.chan c).joinPool = (s.chan c).joinPool ∨
    ∃ u m, s.names n = some u ∧ JoinEvent c u m ∧
      (s₁.chan c).joinPool = emplace n m (s.chan c).joinPool
  have hstable : W.Stable A := by
    intro h s₁ s₂ hs hr
    exact ⟨hr.1.trans hs.1, hr.2.trans hs.2⟩
  have hwake (a : Act) (ha : Waking a) : W.Triple A (call a) (fun _ => A) fun _ => B := by
    refine .perform hstable fun r h s₁ s₂ hs hx => ⟨?_, ?_⟩
    · rw [exec_names hx, ← hs.1]
      cases a <;> first | rfl | exact ha.elim
    · rw [exec_joinPool hx, ← hs.2]
      cases a <;> first | rfl | exact ha.elim
  have hjoin {u : Bytes} {m : MessageReqDto} (hu : s.names n = some u) (hm : JoinEvent c u m) :
      W.Triple A (join c n m) (fun _ => B) fun _ => B := by
    have hput : W.Triple A (call (.emplaceJoin c n m)) (fun _ => B) fun _ => B := by
      refine .perform hstable fun r h s₁ s₂ hs hx => .inr ⟨u, m, hu, hm, ?_⟩
      rw [exec_joinPool hx, After.joinPool, if_pos rfl, hs.2]
    have hstart : W.Triple A (do
        unless ← call (.startWorker c) do throw Err.threadFailed
        call (.storeStop c false)
        call (.storeEmptySince c 0)
        call (.emplaceJoin c n m)) (fun _ => B) fun _ => B := by
      refine .bind (hwake (.startWorker c) trivial) fun b => ?_
      cases b with
      | false => exact .raise fun _ _ hs => .inl hs.2
      | true =>
        exact .bind (hwake (.storeStop c false) trivial) fun _ =>
          .bind (hwake (.storeEmptySince c 0) trivial) fun _ => hput
    refine .bind (hwake (.loadStop c) trivial) fun b => ?_
    cases b with
    | false => exact hput
    | true =>
      refine .bind (hwake (.joinable c) trivial) fun b => ?_
      cases b with
      | false => exact hstart
      | true => exact .bind (hwake (.joinWorker c) trivial) fun _ => hstart
  have hall : W.Triple A (joinAndLogging c n timestamp re) (fun _ => B) fun _ => B := by
    refine .handle (E := fun _ => B) (.bind (Q := fun o h s₁ => s.names n = o ∧ A h s₁)
      (.perform hstable fun o h s₁ s₂ hs hx => ⟨?_, ?_, ?_⟩) fun o => .pure fun ho => ?_) fun _ =>
        .ret fun _ _ hs => hs
    · rw [(need_eq_some.mp hx).1, hs.1]
    · rw [exec_names hx]
      exact hs.1
    · rw [exec_joinPool hx]
      exact hs.2
    · cases o with
      | none => exact .ret fun _ _ hs => .inl hs.2
      | some u => exact hjoin ho ⟨timestamp, re, rfl⟩
  obtain ⟨hok, herr⟩ := hall.exec ⟨rfl, rfl⟩ hx
  cases out with
  | ok a => exact hok a rfl
  | error e => exact herr e rfl

theorem listed_of_filled (hs : Filled c names s) : Listed c names (s.chan c).joinPool := by
  induction hs with
  | empty hnil =>
    rw [hnil]
    intro p hp
    cases hp
  | apart _ hsame ih =>
    rw [hsame]
    exact ih
  | @join names s s' n _ _ _ _ _ hx ih =>
    have hold : n ∉ keys (s.chan c).joinPool →
        Listed c (Function.update names n (s.names n)) (s.chan c).joinPool := by
      intro hn p hp
      have hne : p.1 ≠ n := fun hpn => hn (hpn ▸ List.mem_map_of_mem hp)
      rw [Function.update_of_ne hne]
      exact ih p hp
    rcases exec_enters hx with hsame | ⟨u, m, hu, hm, hnew⟩
    · rw [hsame]
      split
      · exact ih
      · rename_i hn
        exact hold hn
    · rw [hnew, emplace]
      split
      · exact ih
      · rename_i hn
        intro p hp
        rcases List.mem_append.mp hp with hp | hp
        · exact hold hn p hp
        · rw [List.mem_singleton.mp hp, Function.update_self]
          exact ⟨u, hu, hm⟩

/-! ## Taking in -/

variable {rely : St → St → Prop} {C : Finset Fd} {E : Err → Hist sig → St → Prop}

/-- The event of `n` waits in the queue. -/
def Queued (c : ChId) (names : Fd → Option Bytes) (n : Fd) (q : List (Fd × MessageReqDto)) : Prop :=
  ∃ u m, names n = some u ∧ JoinEvent c u m ∧ (n, m) ∈ q

/-- The clients that are new since `C` are announced, but perhaps `k`. -/
def Greeted (c : ChId) (names : Fd → Option Bytes) (C : Finset Fd) (k : Option Fd) (s : St) : Prop :=
  ∀ n ∈ (s.base (.chan c)).clients, n ∉ C → k = some n ∨ Queued c names n (s.chan c).mq

/-- Nobody was taken out yet. -/
def Undismissed (h : Hist sig) : Prop := ∀ n b, ⟨.deleteClient n, b⟩ ∉ h

/-- Who was taken out is no client. -/
def Dismissed (c : ChId) (h : Hist sig) (s : St) : Prop :=
  ∀ n, ⟨.deleteClient n, true⟩ ∈ h → n ∉ (s.base (.chan c)).clients

theorem Greeted.keep {k : Option Fd} (hs : Greeted c names C k s)
    (hclients : (s'.base (.chan c)).clients ⊆ (s.base (.chan c)).clients)
    (hmq : ∀ i ∈ (s.chan c).mq, i ∈ (s'.chan c).mq) : Greeted c names C k s' := by
  intro n hn hnew
  refine (hs n (hclients hn) hnew).imp_right ?_
  rintro ⟨u, m, hu, hm, hq⟩
  exact ⟨u, m, hu, hm, hmq _ hq⟩

theorem undismissed_snoc (hh : Undismissed h) (ha : ∀ n, a ≠ .deleteClient n) :
    Undismissed (h ++ [⟨a, r⟩]) := by
  intro n b hmem
  rcases List.mem_append.mp hmem with hmem | hmem
  · exact hh n b hmem
  · cases List.mem_singleton.mp hmem
    exact ha n rfl

theorem Dismissed.snoc (hs : Dismissed c h s) (ha : ∀ n, a ≠ .deleteClient n)
    (hclients : (s'.base (.chan c)).clients = (s.base (.chan c)).clients) :
    Dismissed c (h ++ [⟨a, r⟩]) s' := by
  intro n hmem
  rw [hclients]
  rcases List.mem_append.mp hmem with hmem | hmem
  · exact hs n hmem
  · cases List.mem_singleton.mp hmem
    exact absurd rfl (ha n)

/-- The calls of `resolve_pool` that change neither the clients nor the queue. -/
def Mild : Act → Prop
  | .lockPool _ | .takeJoinPool | .takeLeavePool | .getClientCount | .joinPoolEmpty | .storeStop _ _
  | .systemNow | .storeEmptySince _ _ | .unlockPool _ => True
  | _ => False

theorem Mild.not_delete (ha : Mild a) (n : Fd) : a ≠ .deleteClient n := by
  rintro rfl
  exact ha

theorem Mild.exec (ha : Mild a) (hx : exec (.chan c) a r s = some s') :
    (s'.base (.chan c)).clients = (s.base (.chan c)).clients ∧ (s'.chan c).mq = (s.chan c).mq := by
  constructor
  · rw [exec_clients hx]
    cases a <;> first | rfl | exact ha.elim
  · rw [exec_mq hx]
    cases a <;> first | rfl | exact ha.elim

/-- While the joins are gone through. -/
def Welcoming (c : ChId) (names : Fd → Option Bytes) (C : Finset Fd) (k : Option Fd) (h : Hist sig)
    (s : St) : Prop :=
  Greeted c names C k s ∧ Undismissed h

/-- While the leaves are gone through, and after that. -/
def Parted (c : ChId) (names : Fd → Option Bytes) (C : Finset Fd) (h : Hist sig) (s : St) : Prop :=
  Greeted c names C none s ∧ Dismissed c h s

theorem stable_welcoming (hrely : ∀ s s', rely s s' → Bystanding c names s s') (k : Option Fd) :
    (lone (.chan c) rely).Stable (Welcoming c names C k) := by
  intro h s s' hs hr
  have hr := hrely s s' hr
  exact ⟨hs.1.keep (Finset.subset_of_eq hr.clients) fun i hi => hr.mq ▸ hi, hs.2⟩

theorem stable_parted (hrely : ∀ s s', rely s s' → Bystanding c names s s') :
    (lone (.chan c) rely).Stable (Parted c names C) := by
  intro h s s' hs hr
  have hr := hrely s s' hr
  refine ⟨hs.1.keep (Finset.subset_of_eq hr.clients) fun i hi => hr.mq ▸ hi, fun n hn => ?_⟩
  rw [hr.clients]
  exact hs.2 n hn

theorem exec_parted (hrely : ∀ s s', rely s s' → Bystanding c names s s') {a : Act} (ha : Mild a) :
    (lone (.chan c) rely).Triple (Parted c names C) (call a) (fun _ => Parted c names C) E := by
  refine .perform (stable_parted hrely) fun r h s s' hs hx => ?_
  obtain ⟨hclients, hmq⟩ := ha.exec hx
  exact ⟨hs.1.keep (Finset.subset_of_eq hclients) fun i hi => hmq ▸ hi, hs.2.snoc ha.not_delete hclients⟩

/-- Whoever becomes a client is announced. -/
theorem exec_welcome (hrely : ∀ s s', rely s s' → Bystanding c names s s') {p : Fd × MessageReqDto}
    (hp : ∃ u, names p.1 = some u ∧ JoinEvent c u p.2) :
    (lone (.chan c) rely).Triple (Welcoming c names C none) (admitOne p)
      (fun _ => Welcoming c names C none) E := by
  have hadd : (lone (.chan c) rely).Triple (Welcoming c names C none) (trackerAdd p.1)
      (fun _ => Welcoming c names C (some p.1)) fun _ => Welcoming c names C none := by
    refine .bind (Q := fun x => if x = .ok then Welcoming c names C (some p.1)
      else Welcoming c names C none) (.perform (stable_welcoming hrely none) fun x h s s' hs hx => ?_)
        fun x => ?_
    · have hclients := exec_clients hx (.chan c)
      have hmq : (s'.chan c).mq = (s.chan c).mq := exec_mq hx c
      rw [After.clients, if_pos rfl] at hclients
      have hh : Undismissed (h ++ [⟨.addClient p.1, x⟩]) := undismissed_snoc hs.2 fun n hn => by cases hn
      split
      · rename_i hok
        rw [if_pos hok] at hclients
        refine ⟨fun n hn hnew => ?_, hh⟩
        rw [hclients, Finset.mem_insert] at hn
        rcases hn with rfl | hn
        · exact .inl rfl
        · rw [hmq]
          exact .inr ((hs.1 n hn hnew).resolve_left fun h => by cases h)
      · rename_i hno
        rw [if_neg hno] at hclients
        exact ⟨hs.1.keep (Finset.subset_of_eq hclients) fun i hi => hmq ▸ hi, hh⟩
    · cases x with
      | ok => exact .ret fun _ _ hs => hs
      | full | failed => exact .raise fun _ _ hs => hs
  refine .handle (E := fun _ => Welcoming c names C none) (.bind hadd fun _ =>
    .perform (stable_welcoming hrely _) fun u h s s' hs hx => ⟨fun n hn hnew => ?_, ?_⟩) fun _ =>
      .ret fun _ _ hs => hs
  · have hmq : (s'.chan c).mq = (s.chan c).mq ++ [(p.1, p.2)] := (exec_mq hx c).trans (if_pos rfl)
    have hclients : (s'.base (.chan c)).clients = (s.base (.chan c)).clients := exec_clients hx _
    rw [hclients] at hn
    rw [hmq]
    right
    rcases hs.1 n hn hnew with hk | ⟨u, m, hu, hm, hq⟩
    · cases hk
      obtain ⟨u, hu, hm⟩ := hp
      exact ⟨u, p.2, hu, hm, List.mem_append_right _ (List.mem_singleton.mpr rfl)⟩
    · exact ⟨u, m, hu, hm, List.mem_append_left _ hq⟩
  · exact undismissed_snoc hs.2 fun n hn => by cases hn

/-- Whoever is taken out stays out. -/
theorem exec_part (hrely : ∀ s s', rely s s' → Bystanding c names s s') (p : Fd × MessageReqDto) :
    (lone (.chan c) rely).Triple (Parted c names C) (dismissOne p) (fun _ => Parted c names C) E := by
  have hdelete : (lone (.chan c) rely).Triple (Parted c names C) (trackerDelete p.1)
      (fun _ => Parted c names C) fun _ => Parted c names C := by
    refine .bind (Q := fun _ => Parted c names C) (.perform (stable_parted hrely)
      fun x h s s' hs hx => ?_) fun x => ?_
    · have hclients := exec_clients hx (.chan c)
      have hmq : (s'.chan c).mq = (s.chan c).mq := exec_mq hx c
      rw [After.clients, if_pos rfl] at hclients
      have hsub : (s'.base (.chan c)).clients ⊆ (s.base (.chan c)).clients := by
        rw [hclients]
        split
        · exact Finset.erase_subset _ _
        · exact Finset.Subset.refl _
      refine ⟨hs.1.keep hsub fun i hi => hmq ▸ hi, fun n hn => ?_⟩
      rcases List.mem_append.mp hn with hn | hn
      · exact fun hin => hs.2 n hn (hsub hin)
      · cases List.mem_singleton.mp hn
        rw [hclients, if_pos rfl]
        exact Finset.notMem_erase _ _
    · cases x with
      | true => exact .ret fun _ _ hs => hs
      | false => exact .raise fun _ _ hs => hs
  refine .handle (E := fun _ => Parted c names C) (.bind hdelete fun _ =>
    .perform (stable_parted hrely) fun u h s s' hs hx => ?_) fun _ => .ret fun _ _ hs => hs
  have hmq : (s'.chan c).mq = (s.chan c).mq ++ [(p.1, p.2)] := (exec_mq hx c).trans (if_pos rfl)
  have hclients : (s'.base (.chan c)).clients = (s.base (.chan c)).clients := exec_clients hx _
  refine ⟨hs.1.keep (Finset.subset_of_eq hclients) fun i hi => ?_, hs.2.snoc (fun n hn => by cases hn)
    hclients⟩
  rw [hmq]
  exact List.mem_append_left _ hi

/-- **`resolve_pool`** announces whoever it takes in. -/
theorem exec_announces (hrely : ∀ s s', rely s s' → Bystanding c names s s') :
    (lone (.chan c) rely).Triple
      (fun h s => (s.base (.chan c)).clients = C ∧ Filled c names s ∧ Undismissed h) (resolvePool c)
      (fun _ => Parted c names C) fun _ _ _ => False := by
  have hstart : (lone (.chan c) rely).Stable fun h s =>
      (s.base (.chan c)).clients = C ∧ Filled c names s ∧ Undismissed h := by
    intro h s s' hs hr
    have hr := hrely s s' hr
    exact ⟨hr.clients.trans hs.1, hr.filled hs.2.1, hs.2.2⟩
  have hend : (lone (.chan c) rely).Triple (Parted c names C) (do
      if (← call .getClientCount) = 0 then
        if ← call .joinPoolEmpty then
          call (.storeStop c true)
          let now ← call .systemNow
          call (.storeEmptySince c now)) (fun _ => Parted c names C) fun _ _ _ => False := by
    refine .bind (exec_parted hrely trivial) fun k => ?_
    split
    · refine .bind (exec_parted hrely trivial) fun b => ?_
      split
      · exact .bind (exec_parted hrely trivial) fun _ => .bind (exec_parted hrely trivial) fun _ =>
          exec_parted hrely trivial
      · exact .ret fun _ _ hs => hs
    · exact .ret fun _ _ hs => hs
  have hbody : (lone (.chan c) rely).Triple
      (fun h s => (s.base (.chan c)).clients = C ∧ Filled c names s ∧ Undismissed h)
      (resolvePoolBody c) (fun _ => Parted c names C) fun _ _ _ => False := by
    refine .bind (Q := fun l h s => Listed c names l ∧ Welcoming c names C none h s)
      (.perform hstart fun l h s s' hs hx => ?_) fun l => .pure fun hl => ?_
    · obtain ⟨hperm, -⟩ := need_eq_some.mp hx
      obtain ⟨hclients, hmq⟩ := Mild.exec (a := .takeJoinPool) trivial hx
      refine ⟨fun p hp => listed_of_filled hs.2.1 p (hperm.mem_iff.mp hp), fun n hn hnew => ?_, ?_⟩
      · rw [hclients, hs.1] at hn
        exact absurd hn hnew
      · exact undismissed_snoc hs.2.2 fun n hn => by cases hn
    · have hloop : ∀ l, Listed c names l → (lone (.chan c) rely).Triple (Welcoming c names C none)
          (Prog.forEach admitOne l) (fun _ => Welcoming c names C none) fun _ _ _ => False := by
        intro l
        induction l with
        | nil => exact fun _ => .ret fun _ _ hs => hs
        | cons p l ih =>
          intro hl
          exact .bind (exec_welcome hrely (hl p List.mem_cons_self)) fun _ =>
            ih fun q hq => hl q (List.mem_cons_of_mem p hq)
      refine .bind (hloop l hl) fun _ => .bind (Q := fun _ => Parted c names C)
        (.perform (stable_welcoming hrely none) fun q h s s' hs hx => ?_) fun q =>
          .bind (.forEach (I := fun _ => Parted c names C) (fun p _ => exec_part hrely p) q) fun _ => hend
      obtain ⟨hclients, hmq⟩ := Mild.exec (a := .takeLeavePool) trivial hx
      refine ⟨hs.1.keep (Finset.subset_of_eq hclients) fun i hi => hmq ▸ hi, fun n hn => ?_⟩
      exact absurd hn (undismissed_snoc hs.2 (fun n hn => by cases hn) n true)
  refine .bind (Q := fun _ h s => (s.base (.chan c)).clients = C ∧ Filled c names s ∧ Undismissed h)
    (.perform hstart fun _ h s s' hs hx => ?_) fun _ => .bind (.handle hbody fun _ _ _ hs => hs.elim)
      fun _ => exec_parted hrely trivial
  obtain ⟨hclients, -⟩ := Mild.exec (a := .lockPool c) trivial hx
  refine ⟨hclients.trans hs.1, hs.2.1.apart ?_, undismissed_snoc hs.2.2 fun n hn => by cases hn⟩
  rw [exec_joinPool hx]
  rfl

/-! ## Sending the window -/

variable {C' : Finset Fd} {Q : List (Fd × MessageReqDto)}

/-- `resolve_timestamps` moves the whole queue into the messages of the tick. -/
theorem exec_moves (hrely : ∀ s s', rely s s' → Bystanding c names s s') :
    (lone (.chan c) rely).Triple
      (fun _ s => (s.chan c).mq = Q ∧ (s.base (.chan c)).clients = C') resolveTimestamps
      (fun _ _ s => (∀ i ∈ Q, (i.2.timestamp, i) ∈ (s.chan c).curMsgs) ∧
        (s.base (.chan c)).clients = C') fun _ _ _ => False := by
  let I : List (Fd × MessageReqDto) → Hist sig → St → Prop := fun rest _ s =>
    (∀ i ∈ Q, i ∈ rest ∨ (i.2.timestamp, i) ∈ (s.chan c).curMsgs) ∧ (s.base (.chan c)).clients = C'
  have hstable (rest : List (Fd × MessageReqDto)) : (lone (.chan c) rely).Stable (I rest) := by
    intro h s s' hs hr
    have hr := hrely s s' hr
    refine ⟨fun i hi => ?_, hr.clients.trans hs.2⟩
    rw [hr.curMsgs]
    exact hs.1 i hi
  refine .bind (Q := fun q => I q) (.perform (fun h s s' hs hr => ?_) fun q h s s' hs hx => ?_) fun q =>
    .conseq (.forEach (I := I) (fun i rest => ?_) q) (fun _ _ hs => hs) (fun _ _ s hs => ?_)
      fun _ _ _ hs => hs
  · have hr := hrely s s' hr
    exact ⟨hr.mq.trans hs.1, hr.clients.trans hs.2⟩
  · have hclients : (s'.base (.chan c)).clients = (s.base (.chan c)).clients := exec_clients hx _
    obtain ⟨hq, -⟩ := need_eq_some.mp hx
    have hq : q = Q := hq.trans hs.1
    exact ⟨fun i hi => .inl (hq ▸ hi), hclients.trans hs.2⟩
  · refine .perform (hstable _) fun _ h s s' hs hx => ?_
    have hclients : (s'.base (.chan c)).clients = (s.base (.chan c)).clients := exec_clients hx _
    have hcur : (s'.chan c).curMsgs = multimapEmplace i.2.timestamp (i.1, i.2) (s.chan c).curMsgs :=
      (exec_curMsgs hx c).trans (if_pos rfl)
    refine ⟨fun j hj => ?_, hclients.trans hs.2⟩
    rw [hcur, mem_multimapEmplace]
    rcases hs.1 j hj with hrest | hin
    · rcases List.mem_cons.mp hrest with rfl | hrest
      · exact .inr (.inl rfl)
      · exact .inl hrest
    · exact .inr (.inr hin)
  · exact ⟨fun i hi => (hs.1 i hi).resolve_left List.not_mem_nil, hs.2⟩

/-- What the calls of `resolve_broadcast` were told: all events of the queue, and the clients. -/
structure Answered (c : ChId) (Q : List (Fd × MessageReqDto)) (C' : Finset Fd) (h : Hist sig) (s : St) :
    Prop where
  clients : (s.base (.chan c)).clients = C'
  posted : ∀ i ∈ Q, (i.2.timestamp, i) ∈ (s.chan c).curMsgs
  messages : ∀ cur, ⟨.getCurMsgs, cur⟩ ∈ h → ∀ i ∈ Q, (i.2.timestamp, i) ∈ cur
  recipients : ∀ l, ⟨.getClients, l⟩ ∈ h → l.Nodup ∧ ∀ n, n ∈ l ↔ n ∈ C'

/-- The calls of `resolve_broadcast`. -/
def Casting : Act → Prop
  | .getCurMsgs | .getClients | .send _ _ | .insertDeletion _ => True
  | _ => False

theorem casting_resolveBroadcast (js : Jansson) : (resolveBroadcast js).All Casting := by
  refine .bind (.perform trivial) fun cur => ?_
  split
  · trivial
  · exact .bind (.perform trivial) fun l => .bind (all_broadcast _ l fun _ _ _ => trivial) fun failed =>
      .forEach (fun _ => .perform trivial) failed

theorem exec_answers (hrely : ∀ s s', rely s s' → Bystanding c names s s') (js : Jansson) :
    (lone (.chan c) rely).Triple (Answered c Q C') (resolveBroadcast js) (fun _ => Answered c Q C')
      fun _ => Answered c Q C' := by
  refine .keep (fun h s s' hs hr => ?_) (casting_resolveBroadcast js) fun a r h s s' ha hs hx => ?_
  · have hr := hrely s s' hr
    exact ⟨hr.clients.trans hs.clients, fun i hi => hr.curMsgs ▸ hs.posted i hi, hs.messages, hs.recipients⟩
  · have hclients : (s'.base (.chan c)).clients = (s.base (.chan c)).clients := by
      rw [exec_clients hx]
      cases a <;> first | rfl | exact ha.elim
    have hcur : (s'.chan c).curMsgs = (s.chan c).curMsgs := by
      rw [exec_curMsgs hx]
      cases a <;> first | rfl | exact ha.elim
    refine ⟨hclients.trans hs.clients, fun i hi => hcur ▸ hs.posted i hi, fun cur hmem => ?_,
      fun l hmem => ?_⟩
    · rcases List.mem_append.mp hmem with hmem | hmem
      · exact hs.messages cur hmem
      · cases List.mem_singleton.mp hmem
        rw [(need_eq_some.mp hx).1]
        exact hs.posted
    · rcases List.mem_append.mp hmem with hmem | hmem
      · exact hs.recipients l hmem
      · cases List.mem_singleton.mp hmem
        obtain ⟨⟨hnodup, hset⟩, -⟩ := need_eq_some.mp hx
        refine ⟨hnodup, fun n => ?_⟩
        rw [← hs.clients, ← hset, List.mem_toFinset]

/-! ### The bytes -/

/-- No call sends anything. -/
def Silent (es : Hist sig) : Prop := ∀ e ∈ es, ∀ n b, e.1 ≠ .send n b

theorem Silent.written {es : Hist sig} (hes : Silent es) (n : Fd) : written n es = [] := by
  refine List.flatMap_eq_nil_iff.mpr fun e he => ?_
  obtain ⟨a, r⟩ := e
  cases a <;> first | rfl | exact absurd rfl (hes _ he _ _)

theorem Silent.replies {es : Hist sig} (hes : Silent es) (n : Fd) : replies n es = [] := by
  refine List.filterMap_eq_nil_iff.mpr fun e he => ?_
  obtain ⟨a, r⟩ := e
  cases a <;> first | rfl | exact absurd rfl (hes _ he _ _)

theorem silent_of_all {α : Type} {p : Code α} {H : Act → Prop} {es : Hist sig} {out : Except Err α}
    (hx : p.Path es out) (hp : p.All H) (hH : ∀ n b, ¬ H (.send n b)) : Silent es := by
  intro e he n b heq
  have := hx.all hp e he
  rw [heq] at this
  exact hH n b this

theorem written_toward (n : Fd) (es : Hist sig) : written n (toward n es) = written n es := by
  induction es with
  | nil => rfl
  | cons e es ih =>
    have hcons : e :: es = [e] ++ es := rfl
    rw [hcons, toward_append, written_append, written_append, ih]
    congr 1
    obtain ⟨a, r⟩ := e
    cases a <;> first | rfl | skip
    rename_i m b
    by_cases hm : m = n <;> simp [toward, written, writtenBy, hm]

/-- If every `send` succeeds, every client is sent the window and nobody else is sent anything. -/
theorem path_cast {js : Jansson} {es : Hist sig} {out : Except Err Unit}
    (hx : (resolveBroadcast js).Path es out)
    (hwindow : ∀ cur, ⟨.getCurMsgs, cur⟩ ∈ es → ∃ w, window js cur = some w ∧ Sized w)
    (hclients : ∀ l, ⟨.getClients, l⟩ ∈ es → l.Nodup)
    (hsend : ∀ n, none ∉ replies n es ∧ ¬ CutShort (replies n es)) :
    ∃ cur w l, ⟨.getCurMsgs, cur⟩ ∈ es ∧ window js cur = some w ∧ ⟨.getClients, l⟩ ∈ es ∧
      (∀ n ∈ l, written n es = encodeFrame w) ∧ ∀ n ∉ l, ∀ b r, ⟨.send n b, r⟩ ∉ es := by
  obtain ⟨cur, ⟨hnone, rfl, -⟩ | ⟨w, l, es₁, hw, rfl, hcast⟩⟩ := path_resolveBroadcast_iff.mp hx
  · obtain ⟨w, hw, -⟩ := hwindow cur List.mem_cons_self
    rw [hnone] at hw
    cases hw
  obtain ⟨w', hw', hsized⟩ := hwindow cur List.mem_cons_self
  obtain rfl : w = w' := Option.some.inj (hw.symm.trans hw')
  have hnodup : l.Nodup := hclients l (by simp)
  have hhead : Silent [⟨.getCurMsgs, cur⟩, ⟨.getClients, l⟩] := by
    intro e he n b heq
    rcases List.mem_cons.mp he with rfl | he
    · cases heq
    · rw [List.mem_singleton.mp he] at heq
      cases heq
  rcases Prog.path_bind_iff.mp hcast with ⟨esb, failed, esi, rfl, hb, hi⟩ | ⟨e, -, hb⟩
  · obtain ⟨failed', -, hall⟩ := path_broadcast hb hnodup
    have htail : Silent esi := by
      rw [path_insertAll hi]
      intro e he n b heq
      obtain ⟨m, -, rfl⟩ := List.mem_map.mp he
      cases heq
    have hsplit : ⟨.getCurMsgs, cur⟩ :: ⟨.getClients, l⟩ :: (esb ++ esi) =
        [⟨.getCurMsgs, cur⟩, ⟨.getClients, l⟩] ++ (esb ++ esi) := rfl
    refine ⟨cur, w, l, List.mem_cons_self, hw, by simp, fun n hn => ?_, fun n hn b r hmem => ?_⟩
    · obtain ⟨es', o, hframe, htoward, -⟩ := (hall n).2 hn
      have hgood := hsend n
      rw [hsplit, replies_append, replies_append, hhead.replies, htail.replies, List.nil_append,
        List.append_nil, ← replies_toward, htoward] at hgood
      have hfits : w.length % 2 ^ 32 ≤ maxFrameSize := by
        have := hsized.2
        unfold maxFrameSize
        omega
      have hok : o = .ok () := by
        rcases (path_sendFrame_replies hframe).2 hfits with ⟨hok, -⟩ | ⟨-, hbad⟩
        · exact hok
        · exact absurd (hbad.mpr hgood.2) hgood.1
      rw [hsplit, written_append, written_append, hhead.written, htail.written, List.nil_append,
        List.append_nil, ← written_toward, htoward]
      rw [hok] at hframe
      exact path_sendFrame hsized hframe
    · rw [hsplit, List.mem_append, List.mem_append] at hmem
      rcases hmem with hmem | hmem | hmem
      · exact hhead _ hmem n b rfl
      · exact hn (hb.all (sendsTo_broadcast l) _ hmem)
      · exact htail _ hmem n b rfl
  · obtain ⟨failed', hf, -⟩ := path_broadcast hb hnodup
    cases hf

/-- The second task sends what the first one queued to those who are clients then. -/
theorem exec_chat (hrely : ∀ s s', rely s s' → Bystanding c names s s') {js : Jansson} {es : Hist sig}
    {out : Except Err Unit} (hx : (lone (.chan c) rely).Exec (chatTask js) s es out s')
    (hwindow : ∀ cur, ⟨.getCurMsgs, cur⟩ ∈ es → ∃ w, window js cur = some w ∧ Sized w)
    (hsend : ∀ n, none ∉ replies n es ∧ ¬ CutShort (replies n es)) :
    ∃ cur w, ⟨.getCurMsgs, cur⟩ ∈ es ∧ window js cur = some w ∧
      (∀ i ∈ (s.chan c).mq, (i.2.timestamp, i) ∈ cur) ∧
      (∀ n ∈ (s.base (.chan c)).clients, written n es = encodeFrame w) ∧
      ∀ n ∉ (s.base (.chan c)).clients, ∀ b r, ⟨.send n b, r⟩ ∉ es := by
  rcases hx.of_bind with ⟨esT, u, s₁, esB, rfl, hT, hB⟩ | ⟨e, -, hT⟩
  · obtain ⟨hposted, hclients⟩ := ((exec_moves hrely).exec ⟨rfl, rfl⟩ hT).1 u rfl
    have hanswered : Answered c (s.chan c).mq (s.base (.chan c)).clients esB s' := by
      obtain ⟨hok, herr⟩ := (exec_answers hrely js).exec ⟨hclients, hposted,
        fun _ hmem => absurd hmem List.not_mem_nil, fun _ hmem => absurd hmem List.not_mem_nil⟩ hB
      cases out with
      | ok a => exact hok a rfl
      | error e => exact herr e rfl
    have hsilent : Silent esT := by
      have hall : resolveTimestamps.All fun a : Act => ∀ n b, a ≠ .send n b :=
        .bind (.perform fun n b hc => by cases hc) fun q =>
          .forEach (fun _ => .perform fun n b hc => by cases hc) q
      exact silent_of_all hT.path hall fun n b hc => hc n b rfl
    have hreplies (n : Fd) : replies n (esT ++ esB) = replies n esB := by
      rw [replies_append, hsilent.replies, List.nil_append]
    obtain ⟨cur, w, l, hcur, hw, hl, hsent, hunsent⟩ := path_cast hB.path
      (fun cur hmem => hwindow cur (List.mem_append_right _ hmem))
      (fun l hmem => (hanswered.recipients l hmem).1) fun n => hreplies n ▸ hsend n
    have hset := (hanswered.recipients l hl).2
    refine ⟨cur, w, List.mem_append_right _ hcur, hw, hanswered.messages cur hcur, fun n hn => ?_,
      fun n hn b r hmem => ?_⟩
    · rw [written_append, hsilent.written, List.nil_append]
      exact hsent n ((hset n).mpr hn)
    · rcases List.mem_append.mp hmem with hmem | hmem
      · exact hsilent _ hmem n b rfl
      · exact hunsent n (fun hin => hn ((hset n).mp hin)) b r hmem
  · exact (((exec_moves hrely).exec ⟨rfl, rfl⟩ hT).2 e rfl).elim

/-! ## The order of the tasks -/

/-- The channel has these tasks. -/
def Tasked (c : ChId) (l : List (List Task)) (_ : Hist sig) (s : St) : Prop := (s.base (.chan c)).runner = l

variable {l : List (List Task)}

theorem stable_tasked {W : Solo sig St} (hW : Founder W) : W.Stable (Tasked c l) :=
  fun _ s s' hs hr => (hW.runner s s' hr c).trans hs

/-- What is not about the tasks. -/
def Taskless : Act → Prop
  | .getListenFd | .listenSocket | .bindListen | .epollCreate _ | .epollAddListener _ | .storeStop _ _
  | .startWorker _ => True
  | _ => False

theorem tasked_call {W : Solo sig St} (hW : Founder W) {a : Act} (ha : Taskless a) :
    W.Triple (Tasked c l) (call a) (fun _ => Tasked c l) E := by
  refine .perform (stable_tasked hW) fun r h s s' hs hx => ?_
  have hstall : a ≠ .stall := by
    rintro rfl
    exact ha
  unfold Tasked
  rw [exec_runner (hW.step _ _ _ _ hx hstall), ← hs]
  cases a <;> first | rfl | exact ha.elim

theorem tasked_push {W : Solo sig St} (hW : Founder W) (f : Bool) {w : Nat} {t : Task} (hw : w < l.length) :
    W.Triple (Tasked c l) (if f then pushf c w t else pushb c w t)
      (fun _ => Tasked c (pushTask f w t l)) E := by
  generalize hl : pushTask f w t l = l'
  cases f
  all_goals
    refine .bind (Q := fun b h s => b = true ∧ Tasked c l' h s)
      (.perform (stable_tasked hW) fun b h s s' hs hx => ?_) fun b => .pure fun hb => ?_
    · have hx := hW.step _ _ _ _ hx (by simp)
      obtain ⟨⟨-, hb⟩, -⟩ := need_eq_some.mp hx
      refine ⟨?_, ?_⟩
      · rw [hb, hs]
        exact decide_eq_true hw
      · rw [← hl, ← hs]
        exact (exec_runner hx _).trans (if_pos rfl)
    · subst hb
      exact .ret fun _ _ hs => hs

/-- `ServerBase::ServerBase` pushes all of its tasks, or there is nothing to push them to. -/
theorem tasked_serverBase {W : Solo sig St} (hW : Founder W) (m : Int32) :
    W.Triple (fun _ _ => True) (serverBase c m)
      (fun _ h s => Tasked c baseTasks h s ∨ Tasked c [] h s) E := by
  have hnetwork : W.Triple (Tasked c []) setNetwork (fun _ => Tasked c []) fun _ => Tasked c [] := by
    refine .bind (tasked_call hW trivial) fun o => ?_
    cases o with
    | none => exact .raise fun _ _ hs => hs
    | some n =>
      refine .bind (tasked_call hW trivial) fun b => ?_
      cases b with
      | false => exact .raise fun _ _ hs => hs
      | true => exact .ret fun _ _ hs => hs
  have htracker : W.Triple (Tasked c []) (trackerInit c) (fun _ => Tasked c []) fun _ => Tasked c [] := by
    refine .bind (tasked_call hW trivial) fun o => ?_
    cases o with
    | none => exact .raise fun _ _ hs => hs
    | some n =>
      refine .bind (tasked_call hW trivial) fun b => ?_
      cases b with
      | false => exact .raise fun _ _ hs => hs
      | true => exact .ret fun _ _ hs => hs
  have hinit : W.Triple (Tasked c []) (do
      trackerInit c
      call (.newSession c tsCount)
      pushb c tsPre .clearDeletion
      pushb c tsPoll .polling
      pushb c tsPoll .handleEvents
      pushb c tsLogic .resolveDeletion) (fun _ => Tasked c baseTasks) fun _ => Tasked c [] := by
    refine .bind htracker fun _ => .bind (Q := fun _ => Tasked c (List.replicate tsCount []))
      (.perform (stable_tasked hW) fun r h s s' hs hx => ?_) fun _ => ?_
    · have hx := hW.step _ _ _ _ hx (by simp)
      have hnew := (exec_runner hx (.chan c)).trans (if_pos rfl)
      rwa [hs, List.nil_append] at hnew
    · exact .bind (tasked_push hW false (by decide)) fun _ =>
        .bind (tasked_push hW false (by decide)) fun _ =>
          .bind (tasked_push hW false (by decide)) fun _ => tasked_push hW false (by decide)
  refine .bind (Q := fun _ => Tasked c []) (.perform (fun _ _ _ hs _ => hs) fun r h s s' _ hx => ?_)
    fun _ => .handle (E := fun _ => Tasked c []) (.conseq (.bind (tasked_call hW trivial) fun n => ?_)
      (fun _ _ hs => hs) (fun _ _ _ hs => .inl hs) fun _ _ _ hs => hs) fun _ => .ret fun _ _ hs => .inr hs
  · exact (exec_runner (hW.step _ _ _ _ hx (by simp)) _).trans (if_pos rfl)
  · split
    · exact .bind hnetwork fun _ => hinit
    · exact hinit

/-- **The order of the tasks** that the three constructors install. -/
theorem tasked_newChannel {W : Solo sig St} (hW : Founder W) (m : Int32) :
    W.Triple (fun _ _ => True) (newChannel c m) (fun _ => Tasked c channelTasks)
      fun _ _ _ => True := by
  have hfail : W.Triple (Tasked c []) (pushb c tsPre .clearCurMsgs) (fun _ _ _ => False)
      fun _ _ _ => True := by
    refine .bind (Q := fun b _ _ => b = false) (.perform (stable_tasked hW) fun b h s s' hs hx => ?_)
      fun b => ?_
    · have hx := hW.step _ _ _ _ hx (by simp)
      obtain ⟨⟨-, hb⟩, -⟩ := need_eq_some.mp hx
      rw [hb, hs]
      rfl
    · cases b with
      | false => exact .raise fun _ _ _ => trivial
      | true => exact .ret fun _ _ hs => by cases hs
  have hworker : W.Triple (Tasked c (pushTask false tsPre .clearCurMsgs baseTasks)) (do
      pushf c tsLogic .chat
      call (.storeStop c false)
      unless ← call (.startWorker c) do throw Err.threadFailed
      pushf c tsLogic .resolvePool) (fun _ => Tasked c channelTasks) fun _ _ _ => True := by
    refine .bind (tasked_push hW true (by decide)) fun _ => .bind (tasked_call hW trivial) fun _ =>
      .bind (tasked_call hW trivial) fun b => ?_
    cases b with
    | false => exact .raise fun _ _ _ => trivial
    | true => exact tasked_push hW true (by decide)
  refine .bind (tasked_serverBase hW m) fun _ => .handle (E := fun _ _ _ => True) (.bind
    (Q := fun _ => Tasked c (pushTask false tsPre .clearCurMsgs baseTasks)) ?_ fun _ => hworker) fun e =>
      .bind (Q := fun _ _ _ => True) ?_ fun _ => .raise fun _ _ _ => trivial
  · rintro h s (hs | hs)
    · exact tasked_push (E := fun _ _ _ => True) hW false (by decide) h s hs
    · exact Solo.leads_mono (fun _ _ _ hs => hs.elim) (fun _ _ _ hs => hs) (hfail h s hs)
  · exact .keep (fun _ _ _ hs _ => hs) (founding_destroyServerBase c) fun _ _ _ _ _ _ _ _ => trivial

/-- The tasks under `TS_LOGIC` of a channel that was made while nobody else pushed tasks to it. -/
def Installed (P : Params) (c : ChId) (tasks : List Task) : Prop :=
  ∃ rely s es s', (∀ s s' : St, rely s s' → ∀ d, (s'.base (.chan d)).runner = (s.base (.chan d)).runner) ∧
    (lone .lobby rely).Exec (newChannel c P.chMaxFd) s es (.ok ()) s' ∧
      tasks = (s'.base (.chan c)).runner.getD tsLogic []

theorem Installed.eq {tasks : List Task} (ht : Installed P c tasks) :
    tasks = [.resolvePool, .chat, .resolveDeletion] := by
  obtain ⟨rely, s, es, s', hrunner, hx, rfl⟩ := ht
  have hW : Founder (lone .lobby rely) := ⟨fun _ _ _ _ hs _ => hs, hrunner⟩
  rw [((tasked_newChannel hW P.chMaxFd).exec trivial hx).1 () rfl]
  rfl

/-- A queued event that is packed is in the window. -/
theorem acknowledges_of_queued {js : Jansson} {u w : Bytes} {m : MessageReqDto}
    {cur : List (Msec64 × Fd × MessageReqDto)} (hm : JoinEvent c u m) (hcur : (m.timestamp, n, m) ∈ cur)
    (hpack : ∀ i ∈ cur, (js.pack (windowEntry i.1 i.2.2)).isSome) (hw : window js cur = some w) :
    Acknowledges js c u w := by
  obtain ⟨timestamp, re, rfl⟩ := hm
  obtain ⟨v, hv⟩ := Option.isSome_iff_exists.mp (hpack _ hcur)
  refine ⟨_, v, if re then ascii "rejoin" else ascii "join", asJsonInt timestamp, hw,
    List.mem_filterMap.mpr ⟨_, hcur, hv⟩, ?_, hv⟩
  cases re
  · exact .inl rfl
  · exact .inr rfl

end

/-- **Joiners are acknowledged** in the pass that takes them in, and nobody whom it takes out is sent
anything. -/
theorem joiners_acknowledged {P : Params} {c : ChId} {tasks : List Task} {names : Fd → Option Bytes}
    {rely : St → St → Prop} {s s' : St} {es : Hist sig} {out : Except Err Unit}
    (htasks : Installed P c tasks) (hrely : ∀ s s', rely s s' → Bystanding c names s s')
    (hfilled : Filled c names s)
    (hx : (lone (.chan c) rely).Exec (Prog.forEach (runTask P (.chan c)) tasks) s es out s')
    (hdump : ∀ l w, P.js.dumpArray l = some w → w ≠ [])
    (hpack : ∀ cur, ⟨.getCurMsgs, cur⟩ ∈ es → ∀ i ∈ cur, (P.js.pack (windowEntry i.1 i.2.2)).isSome)
    (hwindow : ∀ cur, ⟨.getCurMsgs, cur⟩ ∈ es → ∃ w, window P.js cur = some w ∧ w.length ≤ 16384)
    (hsend : ∀ n, none ∉ replies n es ∧ ¬ CutShort (replies n es)) :
    ∃ es₁ s₁ es₂ w, es = es₁ ++ es₂ ∧ (lone (.chan c) rely).Exec (resolvePool c) s es₁ (.ok ()) s₁ ∧
      (∀ n ∈ (s₁.base (.chan c)).clients, n ∉ (s.base (.chan c)).clients →
        ∃ u, names n = some u ∧ Acknowledges P.js c u w ∧ written n es = encodeFrame w) ∧
      ∀ n, ⟨.deleteClient n, true⟩ ∈ es₁ → ∀ b r, ⟨.send n b, r⟩ ∉ es := by
  rw [htasks.eq] at hx
  have hannounces := exec_announces (C := (s.base (.chan c)).clients) hrely
  have hstart : (s.base (.chan c)).clients = (s.base (.chan c)).clients ∧ Filled c names s ∧
      Undismissed [] := ⟨rfl, hfilled, fun n b hmem => absurd hmem List.not_mem_nil⟩
  rcases hx.of_bind with ⟨es₁, u, s₁, es₂, rfl, hpool, hrest⟩ | ⟨e, -, hpool⟩
  case inr => exact ((hannounces.exec hstart hpool).2 e rfl).elim
  obtain ⟨hgreeted, hdismissed⟩ := (hannounces.exec hstart hpool).1 u rfl
  -- the pools and `next_deletion` are worked off without a `send`
  have hsilent : Silent es₁ := by
    have hall : (resolvePool c).All fun a : Act => PoolCall a ∨ a = .lockPool c :=
      .bind (.perform (.inr rfl)) fun _ => .bind (.handle ((poolCall_resolvePoolBody c).mono
        fun _ ha => .inl ha) fun _ => .bind (.perform (.inl trivial)) fun _ => trivial) fun _ =>
          .perform (.inl trivial)
    exact silent_of_all hpool.path hall fun n b hc => hc.elim id fun hc => by cases hc
  obtain ⟨es₂', es₃, o, s₂, rfl, hchat, hlast⟩ : ∃ es₂' es₃ o s₂, es₂ = es₂' ++ es₃ ∧
      (lone (.chan c) rely).Exec (chatTask P.js) s₁ es₂' o s₂ ∧ Silent es₃ := by
    rcases hrest.of_bind with ⟨es₂, v, s₂, es₃, rfl, hchat, hend⟩ | ⟨e, -, hchat⟩
    · refine ⟨es₂, es₃, _, s₂, rfl, hchat, ?_⟩
      have hall : (Prog.forEach (runTask P (.chan c)) [.resolveDeletion]).All DeletionCall :=
        .bind (deletionCall_resolveDeletion c) fun _ => trivial
      exact silent_of_all hend.path hall fun n b hc => hc
    · exact ⟨es₂, [], _, _, (List.append_nil _).symm, hchat, fun e he => absurd he List.not_mem_nil⟩
  have hmem {e : Call sig} (he : e ∈ es₂') : e ∈ es₁ ++ (es₂' ++ es₃) :=
    List.mem_append_right _ (List.mem_append_left _ he)
  have hreplies (n : Fd) : replies n (es₁ ++ (es₂' ++ es₃)) = replies n es₂' := by
    rw [replies_append, replies_append, hsilent.replies, hlast.replies, List.nil_append, List.append_nil]
  have hsized (cur : List (Msec64 × Fd × MessageReqDto)) (hcur : ⟨.getCurMsgs, cur⟩ ∈ es₂') :
      ∃ w, window P.js cur = some w ∧ Sized w := by
    obtain ⟨w, hw, hle⟩ := hwindow cur (hmem hcur)
    exact ⟨w, hw, List.length_pos_iff.mpr (hdump _ w hw), hle⟩
  obtain ⟨cur, w, hcur, hw, hqueue, hsent, hunsent⟩ :=
    exec_chat hrely hchat hsized fun n => hreplies n ▸ hsend n
  refine ⟨es₁, s₁, es₂' ++ es₃, w, rfl, hpool, fun n hn hnew => ?_, fun n hn b r hmem => ?_⟩
  · rcases hgreeted n hn hnew with hk | ⟨u, m, hu, hm, hq⟩
    · cases hk
    refine ⟨u, hu, acknowledges_of_queued hm (hqueue _ hq) (hpack cur (hmem hcur)) hw, ?_⟩
    rw [written_append, written_append, hsilent.written, hlast.written, List.nil_append, List.append_nil]
    exact hsent n hn
  · rcases List.mem_append.mp hmem with hmem | hmem
    · exact hsilent _ hmem n b rfl
    · rcases List.mem_append.mp hmem with hmem | hmem
      · exact hunsent n (hdismissed n hn) b r hmem
      · exact hlast _ hmem n b rfl

theorem Bystanding.refl (c : ChId) (names : Fd → Option Bytes) (s : St) : Bystanding c names s s :=
  ⟨rfl, rfl, rfl, id⟩

/-- Channel 1, where nobody is yet, and a user behind descriptor 5. -/
def opened : St :=
  { ((((init sample).openFile 5 (.conn 0)).openFile 6 (.epoll {lobbyListener})).onBase (.chan 1) fun b =>
    { b with efd := 6, runner := channelTasks }) with
      names := fun n => if n = 5 then some (ascii "ann") else none }

/-- The lobby puts the user into the pool. -/
def annEnters : Option (Hist sig × Except Err Unit × St) :=
  executed .lobby (joinAndLogging 1 5 1 false) opened {}

/-- Afterwards she waits there. -/
def annWaits : St := (annEnters.map fun x => x.2.2).getD opened

def annOnly : Fd → Option Bytes := Function.update (fun _ => none) 5 (some (ascii "ann"))

theorem filled_annWaits : Filled 1 annOnly annWaits := by
  have hopened (names : Fd → Option Bytes) : Filled 1 names opened := .empty rfl
  unfold annWaits
  cases hx : annEnters with
  | none => exact hopened _
  | some x =>
    have hrun : (lone .lobby (Unshared 1 5)).Exec (joinAndLogging 1 5 1 false) opened x.1 x.2.1 x.2.2 :=
      Solo.exec_of_execute (W := lone .lobby (Unshared 1 5)) (fun _ _ _ _ h => h) (fun _ => ⟨rfl, rfl⟩) hx
    exact (hopened fun _ => none).join hrun

theorem installed_sample : Installed sample 1 [.resolvePool, .chat, .resolveDeletion] := by
  obtain ⟨es, out, s', hx, hok, htasks⟩ : ∃ es out s', (lone .lobby Eq).Exec
      (newChannel 1 sample.chMaxFd) (init sample) es out s' ∧ out.isOk = true ∧
        (s'.base (.chan 1)).runner = channelTasks :=
    exists_exec (fun _ => rfl) {} (by decide +kernel)
  cases out with
  | error e => cases hok
  | ok u =>
    refine ⟨Eq, init sample, es, s', fun s s' hs d => (by rw [hs]), hx, ?_⟩
    rw [htasks]
    rfl

/-- The windows of a history. -/
def messagesOf (es : Hist sig) : List (List (Msec64 × Fd × MessageReqDto)) :=
  es.filterMap fun e =>
    match e with
    | ⟨.getCurMsgs, cur⟩ => some cur
    | _ => none

theorem mem_messagesOf {es : Hist sig} {cur : List (Msec64 × Fd × MessageReqDto)}
    (h : ⟨.getCurMsgs, cur⟩ ∈ es) : cur ∈ messagesOf es := List.mem_filterMap.mpr ⟨_, h, rfl⟩

/-- The attempts to send, with their answers. -/
def attempts (es : Hist sig) : List (Fd × Option Nat) :=
  es.filterMap fun e =>
    match e with
    | ⟨.send n _, r⟩ => some (n, r)
    | _ => none

theorem replies_attempts (n : Fd) (es : Hist sig) :
    replies n es = (attempts es).filterMap fun p => if p.1 = n then some p.2 else none := by
  rw [attempts, List.filterMap_filterMap]
  refine congrArg (fun f => List.filterMap f es) (funext fun e => ?_)
  obtain ⟨a, r⟩ := e
  cases a <;> rfl

theorem joiner_acknowledged_ann : ∃ es out s', (lone (.chan 1) (Bystanding 1 annOnly)).Exec
      (Prog.forEach (runTask sample (.chan 1)) [.resolvePool, .chat, .resolveDeletion]) annWaits es out s' ∧
    5 ∉ (annWaits.base (.chan 1)).clients ∧ 5 ∈ (s'.base (.chan 1)).clients ∧
    ∃ es₁ s₁ es₂ w, es = es₁ ++ es₂ ∧
      (lone (.chan 1) (Bystanding 1 annOnly)).Exec (resolvePool 1) annWaits es₁ (.ok ()) s₁ ∧
      (∀ n ∈ (s₁.base (.chan 1)).clients, n ∉ (annWaits.base (.chan 1)).clients →
        ∃ u, annOnly n = some u ∧ Acknowledges sample.js 1 u w ∧ written n es = encodeFrame w) ∧
      ∀ n, ⟨.deleteClient n, true⟩ ∈ es₁ → ∀ b r, ⟨.send n b, r⟩ ∉ es := by
  obtain ⟨es, out, s', hx, hin, hattempts, hlength⟩ : ∃ es out s',
      (lone (.chan 1) (Bystanding 1 annOnly)).Exec
        (Prog.forEach (runTask sample (.chan 1)) [.resolvePool, .chat, .resolveDeletion]) annWaits es out s' ∧
      5 ∈ (s'.base (.chan 1)).clients ∧ attempts es = [(5, some 4), (5, some 90)] ∧
      ∀ cur ∈ messagesOf es, ∃ w ∈ window sample.js cur, w.length ≤ 16384 :=
    exists_exec (.refl 1 annOnly) {} (by decide +kernel)
  refine ⟨es, out, s', hx, by decide +kernel, hin, joiners_acknowledged installed_sample (fun _ _ h => h)
    filled_annWaits hx (fun l w hw => ?_) (fun _ _ _ _ => rfl)
      (fun cur hcur => hlength cur (mem_messagesOf hcur)) fun n => ?_⟩
  · cases hw
    simp
  · rw [replies_attempts, hattempts]
    by_cases hn : 5 = n <;> simp [hn, CutShort]

end ChatChannel
