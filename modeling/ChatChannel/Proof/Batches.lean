import ChatChannel.Model.Script
import ChatChannel.Proof.Alphabet
import ChatChannel.Proof.Tracker

/-!
# A tick's changes to the clients of a channel

Calls of `join` and `leave` go into two pools, and `resolve_pool` replays all joins before all leaves. For
one descriptor that is the same as making the changes one by one, unless the last call is a join: then an
earlier leave undoes it, and so does a failed registration (`batched_iff`).
-/

set_option autoImplicit false

namespace ChatChannel

open Conc

/-! ## The calls -/

/-- A call the lobby makes on a channel between two of its ticks. -/
inductive Change
  | join (n : Fd) (m : MessageReqDto)
  | leave (n : Fd) (m : MessageReqDto)
  deriving DecidableEq

def Change.fd : Change → Fd
  | join n _ => n
  | leave n _ => n

def issue (c : ChId) : Change → Code Unit
  | .join n m => join c n m
  | .leave n m => leave c n m

/-- What the call stands for: joining a member or removing a non-member changes nothing. -/
def Change.apply (clients : Finset Fd) : Change → Finset Fd
  | join n _ => insert n clients
  | leave n _ => clients.erase n

def oneByOne (clients : Finset Fd) (calls : List Change) : Finset Fd := calls.foldl Change.apply clients

/-- The last of the calls for `n` is a join. -/
def LastJoin (n : Fd) (calls : List Change) : Prop :=
  ∃ before m after, calls = before ++ .join n m :: after ∧ ∀ p ∈ after, p.fd ≠ n

def Joins (n : Fd) (calls : List Change) : Prop := ∃ m, .join n m ∈ calls

def Leaves (n : Fd) (calls : List Change) : Prop := ∃ m, .leave n m ∈ calls

/-! ## One by one -/

theorem oneByOne_snoc (clients : Finset Fd) (calls : List Change) (p : Change) :
    oneByOne clients (calls ++ [p]) = p.apply (oneByOne clients calls) := by
  simp [oneByOne, List.foldl_append]

theorem lastJoin_snoc {n : Fd} {calls : List Change} {p : Change} :
    LastJoin n (calls ++ [p]) ↔ (∃ m, p = .join n m) ∨ p.fd ≠ n ∧ LastJoin n calls := by
  constructor
  · rintro ⟨before, m, after, heq, hafter⟩
    rcases List.eq_nil_or_concat after with rfl | ⟨after, q, rfl⟩
    · obtain ⟨-, hp⟩ := List.append_inj' heq rfl
      exact .inl ⟨m, (List.cons.inj hp).1⟩
    · rw [List.concat_eq_append, ← List.cons_append, ← List.append_assoc] at heq
      obtain ⟨rfl, hp⟩ := List.append_inj' heq rfl
      obtain ⟨rfl, -⟩ := List.cons.inj hp
      refine .inr ⟨hafter _ (by simp), before, m, after, rfl, fun q hq => hafter q (by simp [hq])⟩
  · rintro (⟨m, rfl⟩ | ⟨hp, before, m, after, rfl, hafter⟩)
    · exact ⟨calls, m, [], rfl, by simp⟩
    · refine ⟨before, m, after ++ [p], by simp, fun q hq => ?_⟩
      rcases List.mem_append.mp hq with hq | hq
      · exact hafter q hq
      · rw [List.mem_singleton.mp hq]
        exact hp

theorem joins_snoc {n : Fd} {calls : List Change} {p : Change} :
    Joins n (calls ++ [p]) ↔ Joins n calls ∨ ∃ m, p = .join n m := by
  simp [Joins, exists_or, eq_comm]

theorem leaves_snoc {n : Fd} {calls : List Change} {p : Change} :
    Leaves n (calls ++ [p]) ↔ Leaves n calls ∨ ∃ m, p = .leave n m := by
  simp [Leaves, exists_or, eq_comm]

/-- The last call decides, and without one nothing changes. -/
theorem mem_oneByOne {n : Fd} {clients : Finset Fd} {calls : List Change} :
    n ∈ oneByOne clients calls ↔ LastJoin n calls ∨
      ¬ Joins n calls ∧ ¬ Leaves n calls ∧ n ∈ clients := by
  induction calls using List.reverseRecOn with
  | nil => simp [oneByOne, LastJoin, Joins, Leaves]
  | append_singleton calls p ih =>
    rw [oneByOne_snoc, lastJoin_snoc, joins_snoc, leaves_snoc]
    cases p with
    | join k m =>
      rw [Change.apply, Finset.mem_insert, ih]
      by_cases hk : n = k
      · subst hk
        simp
      · have hkn : k ≠ n := fun h => hk h.symm
        simp [hk, hkn, Change.fd]
    | leave k m =>
      rw [Change.apply, Finset.mem_erase, ih]
      by_cases hk : n = k
      · subst hk
        simp [Change.fd]
      · have hkn : k ≠ n := fun h => hk h.symm
        simp [hk, hkn, Change.fd]

theorem LastJoin.joins {n : Fd} {calls : List Change} (h : LastJoin n calls) : Joins n calls := by
  obtain ⟨before, m, after, rfl, -⟩ := h
  exact ⟨m, by simp⟩

/-- A descriptor that joins and never leaves joins last. -/
theorem lastJoin_of_joins {n : Fd} {calls : List Change} (hj : Joins n calls)
    (hl : ¬ Leaves n calls) : LastJoin n calls := by
  induction calls using List.reverseRecOn with
  | nil => simp [Joins] at hj
  | append_singleton calls p ih =>
    rw [leaves_snoc, not_or] at hl
    rw [lastJoin_snoc]
    rcases joins_snoc.mp hj with hbefore | hj
    · cases p with
      | join k m =>
        by_cases hk : k = n
        · exact .inl ⟨m, by rw [hk]⟩
        · exact .inr ⟨hk, ih hbefore hl.1⟩
      | leave k m =>
        refine .inr ⟨?_, ih hbefore hl.1⟩
        rintro rfl
        exact hl.2 ⟨m, rfl⟩
    · exact .inl hj

/-! ## The pools -/

section

variable {c : ChId} {rely : St → St → Prop} {s₀ s s' : St} {n : Fd} {m : MessageReqDto}
  {t : Srv} {a : Act} {r : Res a}

/-- The tracker of the channel has not changed. -/
structure SameTracker (c : ChId) (s s' : St) : Prop where
  self : SameSelf (.chan c) s s'
  maxFd : (s'.base (.chan c)).maxFd = (s.base (.chan c)).maxFd
  clients : (s'.base (.chan c)).clients = (s.base (.chan c)).clients
  registered : s'.registered (.chan c) = s.registered (.chan c)

/-- Neither have its pools. -/
structure Undisputed (c : ChId) (s s' : St) : Prop where
  tracker : SameTracker c s s'
  joins : (s'.chan c).joinPool = (s.chan c).joinPool
  leaves : (s'.chan c).leavePool = (s.chan c).leavePool

theorem SameTracker.refl (c : ChId) (s : St) : SameTracker c s s := ⟨⟨rfl, rfl⟩, rfl, rfl, rfl⟩

theorem SameTracker.trans {s'' : St} (h : SameTracker c s s') (h' : SameTracker c s' s'') :
    SameTracker c s s'' :=
  ⟨h.self.trans h'.self, h'.maxFd.trans h.maxFd, h'.clients.trans h.clients,
    h'.registered.trans h.registered⟩

/-- The calls of `join` and `leave` do not touch the tracker. -/
theorem sameTracker_of_enrolling (hx : exec t a r s = some s') (ha : Enrolling a) :
    SameTracker c s s' := by
  have hself : SameSelf (.chan c) s s' := by
    unfold SameSelf
    rw [exec_efd hx, exec_listenFd hx]
    cases a <;> first | exact ⟨rfl, rfl⟩ | exact ha.elim
  refine ⟨hself, ?_, ?_, ?_⟩
  · rw [exec_maxFd hx]
    cases a <;> first | rfl | exact ha.elim
  · rw [exec_clients hx]
    cases a <;> first | rfl | exact ha.elim
  · unfold St.registered
    rw [hself.1, exec_file hx]
    cases a <;> first | rfl | exact ha.elim

/-- Of these calls, the ones before an entry is made. -/
def Waking : Act → Prop
  | .loadStop _ | .storeStop _ _ | .storeEmptySince _ _ | .joinable _ | .joinWorker _
  | .startWorker _ => True
  | _ => False

/-- The pools hold one entry for every descriptor that was named, and nothing else has changed. -/
structure Issued (c : ChId) (s₀ : St) (done : List Change) (_ : Hist sig) (s : St) : Prop where
  tracker : SameTracker c s₀ s
  joins : ∀ n, n ∈ keys (s.chan c).joinPool ↔ Joins n done
  leaves : ∀ n, n ∈ keys (s.chan c).leavePool ↔ Leaves n done
  once : (keys (s.chan c).joinPool).Nodup ∧ (keys (s.chan c).leavePool).Nodup

theorem nodup_keys_emplace {l : List (Fd × MessageReqDto)} (h : (keys l).Nodup) :
    (keys (emplace n m l)).Nodup := by
  unfold emplace
  split
  · exact h
  · rename_i hn
    rw [keys, List.map_append, ← keys]
    exact List.nodup_append.mpr ⟨h, List.nodup_singleton n, fun k hk k' hk' he => by
      rw [List.map_singleton, List.mem_singleton] at hk'
      rw [he, hk'] at hk
      exact hn hk⟩

variable {done : List Change} {E : Err → Hist sig → St → Prop}

theorem stable_issued (hrely : ∀ s s', rely s s' → Undisputed c s s') :
    (lone t rely).Stable (Issued c s₀ done) := fun _ s s' hs hr =>
  have hr := hrely s s' hr
  { tracker := hs.tracker.trans hr.tracker
    joins := fun n => by rw [hr.joins, hs.joins]
    leaves := fun n => by rw [hr.leaves, hs.leaves]
    once := by rw [hr.joins, hr.leaves]; exact hs.once }

theorem exec_waking (hrely : ∀ s s', rely s s' → Undisputed c s s') (ha : Waking a) :
    (lone t rely).Triple (Issued c s₀ done) (call a) (fun _ => Issued c s₀ done) E := by
  refine .perform (stable_issued hrely) fun r _ s s' hs hx => ?_
  have hen : Enrolling a := by cases a <;> first | exact trivial | exact ha.elim
  have hjoins : (s'.chan c).joinPool = (s.chan c).joinPool := by
    rw [exec_joinPool hx]
    cases a <;> first | rfl | exact ha.elim
  have hleaves : (s'.chan c).leavePool = (s.chan c).leavePool := by
    rw [exec_leavePool hx]
    cases a <;> first | rfl | exact ha.elim
  refine ⟨hs.tracker.trans (sameTracker_of_enrolling hx hen), fun n => ?_, fun n => ?_, ?_⟩
  · rw [hjoins, hs.joins]
  · rw [hleaves, hs.leaves]
  · rw [hjoins, hleaves]
    exact hs.once

theorem exec_emplaceJoin (hrely : ∀ s s', rely s s' → Undisputed c s s') :
    (lone t rely).Triple (Issued c s₀ done) (call (.emplaceJoin c n m))
      (fun _ => Issued c s₀ (done ++ [.join n m])) E := by
  refine .perform (stable_issued hrely) fun r _ s s' hs hx =>
    ⟨hs.tracker.trans (sameTracker_of_enrolling hx trivial), fun k => ?_, fun k => ?_, ?_⟩
  · rw [exec_joinPool hx, After.joinPool, if_pos rfl, mem_keys_emplace, hs.joins, joins_snoc]
    simp [eq_comm, or_comm]
  · rw [exec_leavePool hx, leaves_snoc]
    simp [After.leavePool, hs.leaves]
  · rw [exec_joinPool hx, exec_leavePool hx, After.joinPool, if_pos rfl]
    exact ⟨nodup_keys_emplace hs.once.1, hs.once.2⟩

theorem exec_emplaceLeave (hrely : ∀ s s', rely s s' → Undisputed c s s') :
    (lone t rely).Triple (Issued c s₀ done) (call (.emplaceLeave c n m))
      (fun _ => Issued c s₀ (done ++ [.leave n m])) E := by
  refine .perform (stable_issued hrely) fun r _ s s' hs hx =>
    ⟨hs.tracker.trans (sameTracker_of_enrolling hx trivial), fun k => ?_, fun k => ?_, ?_⟩
  · rw [exec_joinPool hx, joins_snoc]
    simp [After.joinPool, hs.joins]
  · rw [exec_leavePool hx, After.leavePool, if_pos rfl, mem_keys_emplace, hs.leaves, leaves_snoc]
    simp [eq_comm, or_comm]
  · rw [exec_joinPool hx, exec_leavePool hx, After.leavePool, if_pos rfl]
    exact ⟨hs.once.1, nodup_keys_emplace hs.once.2⟩

theorem exec_issue (hrely : ∀ s s', rely s s' → Undisputed c s s') (p : Change) :
    (lone t rely).Triple (Issued c s₀ done) (issue c p) (fun _ => Issued c s₀ (done ++ [p]))
      fun _ _ _ => True := by
  cases p with
  | leave n m => exact exec_emplaceLeave hrely
  | join n m =>
    refine .bind (exec_waking hrely trivial) fun b => ?_
    cases b with
    | false => exact exec_emplaceJoin hrely
    | true =>
      have hstart : (lone t rely).Triple (Issued c s₀ done) (do
          unless ← call (.startWorker c) do throw Err.threadFailed
          call (.storeStop c false)
          call (.storeEmptySince c 0)
          call (.emplaceJoin c n m)) (fun _ => Issued c s₀ (done ++ [.join n m]))
          fun _ _ _ => True := by
        refine .bind (exec_waking hrely trivial) fun b => ?_
        cases b with
        | false => exact .raise fun _ _ _ => trivial
        | true =>
          exact .bind (exec_waking hrely trivial) fun _ => .bind (exec_waking hrely trivial)
            fun _ => exec_emplaceJoin hrely
      refine .bind (exec_waking hrely trivial) fun b => ?_
      cases b with
      | false => exact hstart
      | true => exact .bind (exec_waking hrely trivial) fun _ => hstart

/-- The pools after a sequence of calls that all went through. -/
theorem exec_issues (hrely : ∀ s s', rely s s' → Undisputed c s s') (calls : List Change) :
    (lone t rely).Triple (Issued c s₀ []) (Prog.forEach (issue c) calls)
      (fun _ => Issued c s₀ calls) fun _ _ _ => True := by
  have hloop := Solo.Triple.forEach (W := lone t rely) (E := fun _ _ _ => True)
    (I := fun rest h s => ∃ done, calls = done ++ rest ∧ Issued c s₀ done h s) (f := issue c)
    (fun p rest h s => ?_) calls
  · refine hloop.conseq (fun _ _ h => ⟨[], rfl, h⟩) (fun _ h s hs => ?_) fun _ _ _ h => h
    obtain ⟨done, hdone, hs⟩ := hs
    rw [hdone, List.append_nil]
    exact hs
  · rintro ⟨done, rfl, hs⟩
    exact ((exec_issue hrely p).conseq (fun _ _ h => h)
      (fun _ _ _ h => ⟨done ++ [p], List.append_cons done p rest, h⟩) fun _ _ _ h => h) h s hs

/-! ## The tick -/

/-- The clients are the set `C`, and each of them can be deleted. -/
structure Tracks (c : ChId) (M : Int32) (C : Finset Fd) (s : St) : Prop where
  clients : (s.base (.chan c)).clients = C
  deletable : ∀ n ∈ C, s.deletable (.chan c) n
  maxFd : (s.base (.chan c)).maxFd = M

variable {M : Int32} {C C₀ : Finset Fd}

theorem SameTracker.tracks (h : SameTracker c s s') (hs : Tracks c M C s) : Tracks c M C s' := by
  refine ⟨h.clients.trans hs.clients, fun n hn => ?_, h.maxFd.trans hs.maxFd⟩
  have hd := hs.deletable n hn
  unfold St.deletable St.addRefused at hd ⊢
  rwa [h.self.1, h.self.2, h.registered]

/-- What `add_client` makes of the clients. -/
theorem Tracks.add {x : AddRes} (hs : Tracks c M C s)
    (hx : exec (.chan c) (.addClient n) x s = some s') :
    Tracks c M (if x = .ok then insert n C else C) s' := by
  have hself : SameSelf (.chan c) s s' := sameSelf_of_touches (n := n) hx rfl
  have hkeep : ∀ k, ¬ s.addRefused (.chan c) k → k ∈ s'.registered (.chan c) →
      s'.deletable (.chan c) k := by
    intro k hr hk
    unfold St.deletable St.addRefused at *
    rw [hself.1, hself.2]
    exact ⟨hr, hk⟩
  refine ⟨?_, fun k hk => ?_, ?_⟩
  · rw [exec_clients hx, After.clients, if_pos rfl, hs.clients]
  · by_cases hkC : k ∈ C
    · refine hkeep k (hs.deletable k hkC).1 ?_
      rw [registered_addClient hx]
      split
      · exact Finset.mem_insert_of_mem (hs.deletable k hkC).2
      · exact (hs.deletable k hkC).2
    · split at hk
      · rename_i hok
        subst hok
        obtain rfl := (Finset.mem_insert.mp hk).resolve_right hkC
        obtain ⟨⟨hr, -, -⟩, -⟩ := need_eq_some.mp hx
        refine hkeep k hr ?_
        rw [registered_addClient hx, if_pos rfl]
        exact Finset.mem_insert_self k _
      · exact absurd hk hkC
  · rw [exec_maxFd hx]
    exact hs.maxFd

/-- What `delete_client` makes of them. -/
theorem Tracks.delete {b : Bool} (hs : Tracks c M C s)
    (hx : exec (.chan c) (.deleteClient n) b s = some s') : Tracks c M (C.erase n) s' := by
  have hself : SameSelf (.chan c) s s' := sameSelf_of_touches (n := n) hx rfl
  refine ⟨?_, fun k hk => ?_, ?_⟩
  · rw [exec_clients hx, After.clients, if_pos rfl, hs.clients]
    split
    · rfl
    · rename_i hb
      -- a client is deletable, so what could not be deleted is none
      have hn : n ∉ C := by
        intro hn
        cases b with
        | true => exact hb rfl
        | false => exact (need_eq_some.mp hx).1 (hs.deletable n hn)
      exact (Finset.erase_eq_of_notMem hn).symm
  · obtain ⟨hkn, hk⟩ := Finset.mem_erase.mp hk
    obtain ⟨hr, hreg⟩ := hs.deletable k hk
    refine ⟨?_, ?_⟩
    · unfold St.addRefused at hr ⊢
      rwa [hself.1, hself.2]
    · rw [registered_deleteClient hx]
      split
      · exact Finset.mem_erase.mpr ⟨hkn, hreg⟩
      · exact hreg
  · rw [exec_maxFd hx]
    exact hs.maxFd

/-- A call that deals with no descriptor leaves the tracker alone. -/
theorem sameTracker_of_neutral (hx : exec (.chan c) a r s = some s') (ha : ∀ k, Touches k a)
    (hc : ∀ k, a ≠ .close k) (hadd : ∀ k, a ≠ .addClient k) : SameTracker c s s' := by
  have hsame : ∀ k, SameAt (.chan c) k s s' := fun k =>
    sameAt_of_touches hx (ha (k + 1)) (Int.ne_of_lt (Int.lt_succ k)) fun h => absurd h (hc _)
  refine ⟨sameSelf_of_touches hx (ha 0), ?_, ?_, ?_⟩
  · rw [exec_maxFd hx]
    cases a <;> first | rfl | exact (ha 0).elim
  · ext k
    exact (hsame k).member
  · ext k
    exact (hsame k).registered

/-- What the calls of a tick so far have made of the clients `C₀`: those in `J` were asked for and those
in `L` taken away. -/
def Membered (C₀ : Finset Fd) (J L : Fd → Prop) (h : Hist sig) (C : Finset Fd) : Prop :=
  ∀ n, n ∈ C ↔ (n ∈ C₀ ∨ J n ∧ ⟨.addClient n, .failed⟩ ∉ h) ∧ ¬ L n

/-- `rest` of the joins is still to be replayed. -/
structure Admitting (c : ChId) (M : Int32) (C₀ : Finset Fd) (J : List Fd)
    (L : List (Fd × MessageReqDto)) (rest : List Fd) (h : Hist sig) (s : St) : Prop where
  tracks : ∃ C, Tracks c M C s ∧ Membered C₀ (fun n => n ∈ J ∧ n ∉ rest) (fun _ => False) h C
  fresh : ∀ n ∈ rest, ∀ x, ⟨.addClient n, x⟩ ∉ h
  sub : rest ⊆ J
  nodup : rest.Nodup
  leaves : (s.chan c).leavePool = L

/-- `rest` of the leaves is. -/
def Thinning (c : ChId) (M : Int32) (C₀ : Finset Fd) (J L : List Fd) (rest : List Fd)
    (h : Hist sig) (s : St) : Prop :=
  (rest.Nodup ∧ rest ⊆ L) ∧
    ∃ C, Tracks c M C s ∧ Membered C₀ (· ∈ J) (fun n => n ∈ L ∧ n ∉ rest) h C

variable {J : List Fd} {L : List (Fd × MessageReqDto)} {rest K : List Fd} {h : Hist sig}

theorem Membered.snoc {J L : Fd → Prop} {C : Finset Fd} (hm : Membered C₀ J L h C)
    (ha : ∀ k, a ≠ .addClient k) : Membered C₀ J L (h ++ [⟨a, r⟩]) C := by
  intro n
  have hmem : (⟨.addClient n, .failed⟩ : Call sig) ∈ h ++ [⟨a, r⟩] ↔ ⟨.addClient n, .failed⟩ ∈ h := by
    rw [List.mem_append, List.mem_singleton, or_iff_left]
    intro he
    exact ha n (congrArg Sigma.fst he).symm
  rw [hmem]
  exact hm n

theorem stable_admitting (hrely : ∀ s s', rely s s' → Undisputed c s s') :
    (lone (.chan c) rely).Stable (Admitting c M C₀ J L rest) := by
  intro h s s' hs hr
  have hr := hrely s s' hr
  obtain ⟨C, htracks, hm⟩ := hs.tracks
  exact ⟨⟨C, hr.tracker.tracks htracks, hm⟩, hs.fresh, hs.sub, hs.nodup, hr.leaves.trans hs.leaves⟩

theorem stable_thinning (hrely : ∀ s s', rely s s' → Undisputed c s s') :
    (lone (.chan c) rely).Stable (Thinning c M C₀ J K rest) := by
  rintro h s s' ⟨hd, C, htracks, hm⟩ hr
  exact ⟨hd, C, (hrely s s' hr).tracker.tracks htracks, hm⟩

/-- One entry of `join_pool`. -/
theorem exec_admitOne (hrely : ∀ s s', rely s s' → Undisputed c s s')
    (hroom : (C₀ ∪ J.toFinset).card ≤ asSize M) (p : Fd × MessageReqDto) :
    (lone (.chan c) rely).Triple (Admitting c M C₀ J L (p.1 :: rest)) (admitOne p)
      (fun _ => Admitting c M C₀ J L rest) E := by
  refine .handle (E := fun _ => Admitting c M C₀ J L rest) (.bind
    (Q := fun _ => Admitting c M C₀ J L rest) (.bind (Q := fun _ => Admitting c M C₀ J L rest)
      (.perform (stable_admitting hrely) fun x h s s' hs hx => ?_) fun x => ?_) fun _ => ?_)
    fun _ => .ret fun _ _ h => h
  · obtain ⟨hrest, hnodup⟩ := List.nodup_cons.mp hs.nodup
    obtain ⟨C, htracks, hm⟩ := hs.tracks
    have hsub : insert p.1 C ⊆ C₀ ∪ J.toFinset := by
      intro n hn
      rw [Finset.mem_union, List.mem_toFinset]
      rcases Finset.mem_insert.mp hn with rfl | hn
      · exact .inr (hs.sub List.mem_cons_self)
      · exact ((hm n).mp hn).1.imp_right fun h => h.1.1
    have hlater : ∀ n, (⟨.addClient n, .failed⟩ : Call sig) ∈ h ++ [⟨.addClient p.1, x⟩] ↔
        ⟨.addClient n, .failed⟩ ∈ h ∨ n = p.1 ∧ x = .failed := by
      intro n
      rw [List.mem_append, List.mem_singleton]
      refine or_congr_right ⟨fun he => ?_, ?_⟩
      · cases he
        exact ⟨rfl, rfl⟩
      · rintro ⟨rfl, rfl⟩
        rfl
    refine ⟨⟨_, htracks.add hx, fun n => ?_⟩, fun n hn y hy => ?_, ?_, hnodup, ?_⟩
    · rw [hlater]
      have hold := hm n
      by_cases hn : n = p.1
      · subst hn
        have hC : p.1 ∈ C ↔ p.1 ∈ C₀ := by simpa using hold
        have hJ : p.1 ∈ J := hs.sub List.mem_cons_self
        have hnever := hs.fresh p.1 List.mem_cons_self .failed
        cases x with
        | ok => simp [hJ, hrest, hnever]
        | failed => simp [hC]
        | full =>
          -- there is room, so only a member can be refused
          have hin : p.1 ∈ C := by
            by_contra hout
            have hfull : asSize M ≤ C.card := by
              have := (need_eq_some.mp hx).1.2
              unfold St.isFull at this
              rwa [htracks.maxFd, htracks.clients] at this
            have hcard := Finset.card_le_card hsub
            rw [Finset.card_insert_of_notMem hout] at hcard
            omega
          simp [hin, hC.mp hin]
      · have hstay : n ∈ (if x = .ok then insert p.1 C else C) ↔ n ∈ C := by
          split
          · rw [Finset.mem_insert, or_iff_right hn]
          · rfl
        rw [hstay, hold]
        simp [hn]
    · rcases List.mem_append.mp hy with hy | hy
      · exact hs.fresh n (List.mem_cons_of_mem _ hn) y hy
      · cases List.mem_singleton.mp hy
        exact hrest hn
    · exact fun n hn => hs.sub (List.mem_cons_of_mem _ hn)
    · rw [exec_leavePool hx]
      exact hs.leaves
  · cases x with
    | ok => exact .ret fun _ _ h => h
    | full | failed => exact .raise fun _ _ h => h
  · refine .perform (stable_admitting hrely) fun x h s s' hs hx => ?_
    obtain ⟨C, htracks, hm⟩ := hs.tracks
    refine ⟨⟨C, (sameTracker_of_neutral hx (fun _ => trivial) (fun _ h => by cases h)
      fun _ h => by cases h).tracks htracks, hm.snoc fun _ h => by cases h⟩, fun n hn y hy => ?_,
      hs.sub, hs.nodup, ?_⟩
    · exact hs.fresh n hn y (by simpa using hy)
    · rw [exec_leavePool hx]
      exact hs.leaves

/-- One entry of `leave_pool`. -/
theorem exec_dismissOne (hrely : ∀ s s', rely s s' → Undisputed c s s') (p : Fd × MessageReqDto) :
    (lone (.chan c) rely).Triple (Thinning c M C₀ J K (p.1 :: rest)) (dismissOne p)
      (fun _ => Thinning c M C₀ J K rest) E := by
  refine .handle (E := fun _ => Thinning c M C₀ J K rest) (.bind
    (Q := fun _ => Thinning c M C₀ J K rest) (.bind (Q := fun _ => Thinning c M C₀ J K rest)
      (.perform (stable_thinning hrely) fun b h s s' hs hx => ?_) fun b => ?_) fun _ => ?_)
    fun _ => .ret fun _ _ h => h
  · obtain ⟨⟨hd, hsub⟩, C, htracks, hm⟩ := hs
    obtain ⟨hrest, hnodup⟩ := List.nodup_cons.mp hd
    have hp : p.1 ∈ K := hsub List.mem_cons_self
    have hm := hm.snoc (a := .deleteClient p.1) (r := b) fun _ h => by cases h
    refine ⟨⟨hnodup, fun n hn => hsub (List.mem_cons_of_mem _ hn)⟩, _, htracks.delete hx,
      fun n => ?_⟩
    rw [Finset.mem_erase, hm n]
    by_cases hn : n = p.1
    · subst hn
      simp [hp, hrest]
    · simp [hn]
  · cases b with
    | true => exact .ret fun _ _ h => h
    | false => exact .raise fun _ _ h => h
  · refine .perform (stable_thinning hrely) fun x h s s' hs hx => ?_
    obtain ⟨hd, C, htracks, hm⟩ := hs
    exact ⟨hd, C, (sameTracker_of_neutral hx (fun _ => trivial) (fun _ h => by cases h)
      fun _ h => by cases h).tracks htracks, hm.snoc fun _ h => by cases h⟩

/-- What `resolve_pool` makes of the clients. -/
def Resolved (c : ChId) (C₀ : Finset Fd) (J L : List Fd) (h : Hist sig) (s : St) : Prop :=
  Membered C₀ (· ∈ J) (· ∈ L) h (s.base (.chan c)).clients

theorem exec_resolved (hrely : ∀ s s', rely s s' → Undisputed c s s') {K : List Fd}
    (ha : ∀ k, Touches k a) (hc : ∀ k, a ≠ .close k) (hadd : ∀ k, a ≠ .addClient k) :
    (lone (.chan c) rely).Triple (Resolved c C₀ J K) (call a) (fun _ => Resolved c C₀ J K) E := by
  refine .perform (fun h s s' hs hr => ?_) fun r h s s' hs hx => ?_
  · unfold Resolved
    rw [(hrely s s' hr).tracker.clients]
    exact hs
  · unfold Resolved
    rw [(sameTracker_of_neutral hx ha hc hadd).clients]
    exact hs.snoc hadd

/-- What is known of the channel when the tick comes to its pools. -/
structure Pooled (c : ChId) (M : Int32) (C₀ : Finset Fd) (J L : List (Fd × MessageReqDto))
    (h : Hist sig) (s : St) : Prop where
  begun : ∀ n x, ⟨.addClient n, x⟩ ∉ h
  tracks : Tracks c M C₀ s
  joins : (s.chan c).joinPool = J
  leaves : (s.chan c).leavePool = L

theorem Pooled.keep {J L : List (Fd × MessageReqDto)} (hr : Undisputed c s s')
    (hs : Pooled c M C₀ J L h s) : Pooled c M C₀ J L h s' :=
  ⟨hs.begun, hr.tracker.tracks hs.tracks, hr.joins.trans hs.joins, hr.leaves.trans hs.leaves⟩

/-- **`resolve_pool`** adds the descriptors of `join_pool` that epoll does not refuse, and removes those
of `leave_pool`. -/
theorem exec_resolvePool (hrely : ∀ s s', rely s s' → Undisputed c s s')
    {J L : List (Fd × MessageReqDto)} (hJ : (keys J).Nodup) (hL : (keys L).Nodup)
    (hroom : (C₀ ∪ (keys J).toFinset).card ≤ asSize M) :
    (lone (.chan c) rely).Triple (Pooled c M C₀ J L) (resolvePool c)
      (fun _ => Resolved c C₀ (keys J) (keys L)) fun _ => Resolved c C₀ (keys J) (keys L) := by
  have hlock : (lone (.chan c) rely).Triple (Pooled c M C₀ J L) (call (.lockPool c))
      (fun _ => Pooled c M C₀ J L) fun _ => Resolved c C₀ (keys J) (keys L) := by
    refine .perform (fun h s s' hs hr => hs.keep (hrely s s' hr)) fun r h s s' hs hx =>
      ⟨fun n x hm => hs.begun n x (by simpa using hm), (sameTracker_of_neutral hx (fun _ => trivial)
        (fun _ h => by cases h) fun _ h => by cases h).tracks hs.tracks, ?_, ?_⟩
    · rw [exec_joinPool hx]
      exact hs.joins
    · rw [exec_leavePool hx]
      exact hs.leaves
  have hunlock : (lone (.chan c) rely).Triple (Resolved c C₀ (keys J) (keys L))
      (call (.unlockPool c)) (fun _ => Resolved c C₀ (keys J) (keys L))
      fun _ => Resolved c C₀ (keys J) (keys L) :=
    exec_resolved hrely (fun _ => trivial) (fun _ h => by cases h) fun _ h => by cases h
  have hbody : (lone (.chan c) rely).Triple (Pooled c M C₀ J L) (resolvePoolBody c)
      (fun _ => Resolved c C₀ (keys J) (keys L)) fun _ => Resolved c C₀ (keys J) (keys L) := by
    refine .bind (Q := fun joins => Admitting c M C₀ (keys J) L (keys joins)) ?_ fun joins =>
      .bind (Q := fun _ => Admitting c M C₀ (keys J) L []) ?_ fun _ => .bind
        (Q := fun leaves => Thinning c M C₀ (keys J) (keys L) (keys leaves)) ?_ fun leaves =>
          .bind (Q := fun _ => Resolved c C₀ (keys J) (keys L)) ?_ fun _ => ?_
    · refine .perform (fun h s s' hs hr => hs.keep (hrely s s' hr)) fun joins h s s' hs hx => ?_
      have hperm : (keys joins).Perm (keys J) := by
        have := (need_eq_some.mp hx).1
        rw [show own (.chan c) = c from rfl, hs.joins] at this
        exact keys_perm this
      refine ⟨⟨C₀, (sameTracker_of_neutral hx (fun _ => trivial) (fun _ h => by cases h)
        fun _ h => by cases h).tracks hs.tracks, fun n => ?_⟩, fun n _ x hm => ?_, hperm.subset,
        hperm.nodup_iff.mpr hJ, ?_⟩
      · simp [hperm.mem_iff]
      · exact hs.begun n x (by simpa using hm)
      · rw [exec_leavePool hx]
        exact hs.leaves
    · exact .forEach (I := fun rest => Admitting c M C₀ (keys J) L (keys rest))
        (fun p rest => exec_admitOne hrely hroom p) joins
    · refine .perform (stable_admitting hrely) fun leaves h s s' hs hx => ?_
      have hperm : (keys leaves).Perm (keys L) := by
        have := (need_eq_some.mp hx).1
        rw [show own (.chan c) = c from rfl, hs.leaves] at this
        exact keys_perm this
      obtain ⟨C, htracks, hm⟩ := hs.tracks
      have hm := hm.snoc (a := .takeLeavePool) (r := leaves) fun _ h => by cases h
      refine ⟨⟨hperm.nodup_iff.mpr hL, hperm.subset⟩, C, (sameTracker_of_neutral hx
        (fun _ => trivial) (fun _ h => by cases h) fun _ h => by cases h).tracks htracks,
        fun n => ?_⟩
      rw [hm n]
      simp [hperm.mem_iff]
    · refine (Solo.Triple.forEach (I := fun rest => Thinning c M C₀ (keys J) (keys L) (keys rest))
        (fun p rest => exec_dismissOne hrely p) leaves).conseq (fun _ _ h => h) (fun _ h s hs => ?_)
        fun _ _ _ h => h
      obtain ⟨-, C, htracks, hm⟩ := hs
      unfold Resolved
      rw [htracks.clients]
      intro n
      rw [hm n]
      simp
    · refine .bind (exec_resolved hrely (fun _ => trivial) (fun _ h => by cases h)
        fun _ h => by cases h) fun k => ?_
      split
      · refine .bind (exec_resolved hrely (fun _ => trivial) (fun _ h => by cases h)
          fun _ h => by cases h) fun b => ?_
        split
        · exact .bind (exec_resolved hrely (fun _ => trivial) (fun _ h => by cases h)
            fun _ h => by cases h) fun _ => .bind (exec_resolved hrely (fun _ => trivial)
              (fun _ h => by cases h) fun _ h => by cases h) fun now =>
                exec_resolved hrely (fun _ => trivial) (fun _ h => by cases h) fun _ h => by cases h
        · exact .ret fun _ _ h => h
      · exact .ret fun _ _ h => h
  exact .bind hlock fun _ => .bind (.handle hbody fun e => .bind hunlock fun _ => .raise fun _ _ h => h)
    fun _ => hunlock

end

/-- **A tick makes the changes one by one** exactly if every descriptor whose last call was a join had no
leave before it and was not refused by epoll, unless it was a client already. -/
theorem batched_iff {c : ChId} {rely rely' : St → St → Prop} {s s₁ s₂ s₃ : St} {calls : List Change}
    {es es' : Hist sig} {out : Except Err Unit} (hrely : ∀ s s', rely s s' → Undisputed c s s')
    (hrely' : ∀ s s', rely' s s' → Undisputed c s s')
    (hempty : (s.chan c).joinPool = [] ∧ (s.chan c).leavePool = [])
    (htracked : ∀ n ∈ (s.base (.chan c)).clients, s.deletable (.chan c) n)
    (hroom : ∀ C : Finset Fd, (∀ n ∈ C, n ∈ (s.base (.chan c)).clients ∨ Joins n calls) →
      C.card ≤ asSize (s.base (.chan c)).maxFd)
    (hcalls : (lone .lobby rely).Exec (Prog.forEach (issue c) calls) s es (.ok ()) s₁)
    (hbetween : Undisputed c s₁ s₂)
    (htick : (lone (.chan c) rely').Exec (resolvePool c) s₂ es' out s₃) :
    (s₃.base (.chan c)).clients = oneByOne (s.base (.chan c)).clients calls ↔
      ∀ n, LastJoin n calls → ¬ Leaves n calls ∧
        (⟨.addClient n, .failed⟩ ∈ es' → n ∈ (s.base (.chan c)).clients) := by
  have hissued : Issued c s calls es s₁ := by
    refine ((exec_issues hrely calls).exec ⟨.refl c s, fun n => ?_, fun n => ?_, ?_⟩ hcalls).1 () rfl
    · simp [hempty.1, Joins]
    · simp [hempty.2, Leaves]
    · simp [hempty.1, hempty.2]
  have hkeys : ∀ n, n ∈ keys (s₁.chan c).joinPool ↔ Joins n calls := hissued.joins
  have hstart : Pooled c (s.base (.chan c)).maxFd (s.base (.chan c)).clients (s₁.chan c).joinPool
      (s₁.chan c).leavePool [] s₂ :=
    ⟨by simp, (hissued.tracker.trans hbetween.tracker).tracks ⟨rfl, htracked, rfl⟩, hbetween.joins,
      hbetween.leaves⟩
  have hres : Resolved c (s.base (.chan c)).clients (keys (s₁.chan c).joinPool)
      (keys (s₁.chan c).leavePool) es' s₃ := by
    obtain ⟨hok, herr⟩ := (exec_resolvePool hrely' hissued.once.1 hissued.once.2 (hroom _ fun n hn => by
      rw [Finset.mem_union, List.mem_toFinset, hkeys] at hn
      exact hn)).exec hstart htick
    cases out with
    | ok a => exact hok a rfl
    | error e => exact herr e rfl
  have hmem : ∀ n, n ∈ (s₃.base (.chan c)).clients ↔ (n ∈ (s.base (.chan c)).clients ∨
      Joins n calls ∧ ⟨.addClient n, .failed⟩ ∉ es') ∧ ¬ Leaves n calls := by
    intro n
    rw [← hkeys, ← hissued.leaves]
    exact hres n
  constructor
  · intro heq n hlast
    have hn : n ∈ (s₃.base (.chan c)).clients := by
      rw [heq, mem_oneByOne]
      exact .inl hlast
    obtain ⟨hin, hleave⟩ := (hmem n).mp hn
    refine ⟨hleave, fun hfail => ?_⟩
    rcases hin with hin | hin
    · exact hin
    · exact absurd hfail hin.2
  · intro hcond
    ext n
    rw [hmem, mem_oneByOne]
    by_cases hlast : LastJoin n calls
    · obtain ⟨hleave, hfail⟩ := hcond n hlast
      refine iff_of_true ⟨?_, hleave⟩ (.inl hlast)
      by_cases hf : (⟨.addClient n, .failed⟩ : Call sig) ∈ es'
      · exact .inl (hfail hf)
      · exact .inr ⟨hlast.joins, hf⟩
    · rw [or_iff_right hlast]
      constructor
      · rintro ⟨hin, hleave⟩
        have hjoin : ¬ Joins n calls := fun hj => hlast (lastJoin_of_joins hj hleave)
        refine ⟨hjoin, hleave, hin.resolve_right fun h => hjoin h.1⟩
      · rintro ⟨-, hleave, hin⟩
        exact ⟨.inl hin, hleave⟩

/-- A channel with one client, behind descriptor 5; the lobby has another connection. -/
def seated : St :=
  ((((init sample).openFile 5 (.conn 0)).openFile 6 (.epoll {lobbyListener, 5})).openFile 7
    (.conn 1)).onBase (.chan 1) fun b => { b with efd := 6, clients := {5} }

def annLeaves : Change := .leave 5 (sysMsg 1 (ascii "leave") 1 (ascii "ann"))

def annRejoins : Change := .join 5 (sysMsg 1 (ascii "rejoin") 2 (ascii "ann"))

def bobJoins : Change := .join 7 (sysMsg 1 (ascii "join") 2 (ascii "bob"))

theorem Undisputed.refl (c : ChId) (s : St) : Undisputed c s s := ⟨.refl c s, rfl, rfl⟩

/-- Calls of the lobby and the tick after them, with a decidable property of its calls and clients. -/
theorem exists_tick {s : St} (calls : List Change) {q : Hist sig → Finset Fd → Prop}
    [∀ es C, Decidable (q es C)]
    (h : (executed .lobby (Prog.forEach (issue 1) calls) s {}).any (fun x =>
      decide (x.2.1 = .ok ()) && (executed (.chan 1) (resolvePool 1) x.2.2 {}).any fun y =>
        decide (q y.1 (y.2.2.base (.chan 1)).clients)) = true) :
    ∃ es s₁ es' out s₃, (lone .lobby (Undisputed 1)).Exec (Prog.forEach (issue 1) calls) s es (.ok ()) s₁ ∧
      (lone (.chan 1) (Undisputed 1)).Exec (resolvePool 1) s₁ es' out s₃ ∧
      q es' (s₃.base (.chan 1)).clients := by
  obtain ⟨es, out, s₁, hx, rfl, hy⟩ : ∃ es out s₁, (lone .lobby (Undisputed 1)).Exec
      (Prog.forEach (issue 1) calls) s es out s₁ ∧ out = .ok () ∧
        (executed (.chan 1) (resolvePool 1) s₁ {}).any (fun y =>
          decide (q y.1 (y.2.2.base (.chan 1)).clients)) = true :=
    exists_exec (.refl 1) {} (by simpa using h)
  obtain ⟨es', out, s₃, hz, hq⟩ : ∃ es' out s₃, (lone (.chan 1) (Undisputed 1)).Exec (resolvePool 1)
      s₁ es' out s₃ ∧ q es' (s₃.base (.chan 1)).clients := exists_exec (.refl 1) {} hy
  exact ⟨es, s₁, es', out, s₃, hx, hz, hq⟩

theorem batched_leave_join : ∃ es s₁ es' out s₃, (lone .lobby (Undisputed 1)).Exec
      (Prog.forEach (issue 1) [annLeaves, bobJoins]) seated es (.ok ()) s₁ ∧
    (lone (.chan 1) (Undisputed 1)).Exec (resolvePool 1) s₁ es' out s₃ ∧
    (s₃.base (.chan 1)).clients = oneByOne {5} [annLeaves, bobJoins] := by
  obtain ⟨es, s₁, es', out, s₃, hx, hz, hadd⟩ := exists_tick (s := seated) [annLeaves, bobJoins]
    (q := fun es' _ => ⟨.addClient 7, .failed⟩ ∉ es') (by decide +kernel)
  refine ⟨es, s₁, es', out, s₃, hx, hz, (batched_iff (fun _ _ h => h) (fun _ _ h => h) ⟨rfl, rfl⟩
    (by decide) (fun C hC => ?_) hx (.refl 1 s₁) hz).mpr fun n hn => ?_⟩
  · have hsub : C ⊆ {5, 7} := by
      intro n hn
      rcases hC n hn with hn | ⟨m, hn⟩
      · exact Finset.mem_insert.mpr (.inl (Finset.mem_singleton.mp hn))
      · simp [annLeaves, bobJoins] at hn
        simp [hn]
    calc C.card ≤ ({5, 7} : Finset Fd).card := Finset.card_le_card hsub
      _ ≤ asSize (seated.base (.chan 1)).maxFd := by decide
  · obtain ⟨m, hm⟩ := hn.joins
    obtain rfl : n = 7 := by
      simp [annLeaves, bobJoins] at hm
      exact hm.1
    refine ⟨?_, fun h => absurd h hadd⟩
    rintro ⟨m, hm⟩
    simp [annLeaves, bobJoins] at hm

/-- A client that is asked to leave and joins again before the tick is gone after it. -/
theorem rejoin_undone : ∃ es s₁ es' out s₃, (lone .lobby (Undisputed 1)).Exec
      (Prog.forEach (issue 1) [annLeaves, annRejoins]) seated es (.ok ()) s₁ ∧
    (lone (.chan 1) (Undisputed 1)).Exec (resolvePool 1) s₁ es' out s₃ ∧
    (s₃.base (.chan 1)).clients ≠ oneByOne {5} [annLeaves, annRejoins] :=
  exists_tick (s := seated) [annLeaves, annRejoins]
    (q := fun _ C => C ≠ oneByOne {5} [annLeaves, annRejoins]) (by decide +kernel)

end ChatChannel
