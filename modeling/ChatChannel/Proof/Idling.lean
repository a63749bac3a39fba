import ChatChannel.Conc.Thread
import ChatChannel.Model.Script
import ChatChannel.Proof.Alphabet
import ChatChannel.Proof.Discipline

/-!
# Five idle minutes

`check_channels` reads the clock once and compares it with what it finds in `empty_since` as it walks
from channel to channel, on unsigned integers. A worker that stops during the walk stores a later time
than the one the walk began with, the difference wraps around, and its channel is destroyed at once. Apart
from that a destroyed channel has been idle for more than five minutes (`reaped_idle_iff`).
-/

set_option autoImplicit false

namespace ChatChannel

open Conc

/-! ## What a walk shows -/

/-- A channel whose destructor begins was examined by the call before, and had been idle for more than
five minutes then. `τ i` is the time of the `i`-th call. -/
def ReapedIdle (τ : Nat → Msec64) (es : Hist sig) : Prop :=
  ∀ x c y, es = x ++ ⟨.storeStop c true, ()⟩ :: y →
    ∃ x' e, x = x' ++ [⟨.loadEmptySince c, e⟩] ∧ e.toNat + 300000 < (τ x'.length).toNat

/-- A later time than the one the walk began with is found only if it is five minutes old by then, or so
much later that the wrapped difference is small. -/
def NoneLater (τ : Nat → Msec64) (es : Hist sig) : Prop :=
  ∀ x c e y now, es = x ++ ⟨.loadEmptySince c, e⟩ :: y → ⟨.systemNow, now⟩ ∈ es → now < e →
    e.toNat + 300000 < (τ x.length).toNat ∨ now.toNat + 2 ^ 64 ≤ e.toNat + 300000

section

variable {now e : Msec64} {h : Hist sig} {a : Act} {r : Res a} {c : ChId}

/-- The condition of the source. -/
def Expired (now e : Msec64) : Prop := 0 < e ∧ 300000 < now - e

/-- Calls that have nothing to do with the examination. -/
def Beside : Act → Prop
  | .loadEmptySince _ | .systemNow => False
  | .storeStop _ b => b = false
  | _ => True

/-- The channels that were destroyed so far are the ones whose examination said so. -/
structure Walked (now : Msec64) (h : Hist sig) : Prop where
  clock : ∀ t, ⟨.systemNow, t⟩ ∈ h → t = now
  reaped : ∀ x c y, h = x ++ ⟨.storeStop c true, ()⟩ :: y →
    ∃ x' e, x = x' ++ [⟨.loadEmptySince c, e⟩] ∧ Expired now e
  doomed : ∀ x c e y, h = x ++ ⟨.loadEmptySince c, e⟩ :: y → Expired now e →
    ∃ y', y = ⟨.storeStop c true, ()⟩ :: y'

theorem Walked.beside (hh : Walked now h) (ha : Beside a) : Walked now (h ++ [⟨a, r⟩]) where
  clock t ht := by
    rcases List.mem_append.mp ht with ht | ht
    · exact hh.clock t ht
    · cases List.mem_singleton.mp ht
      exact ha.elim
  reaped x d y hs := by
    rcases Sys.split_snoc hs with ⟨-, -, he⟩ | ⟨y', -, hs⟩
    · cases he
      cases ha
    · exact hh.reaped x d y' hs
  doomed x d e y hs hexp := by
    rcases Sys.split_snoc hs with ⟨-, -, he⟩ | ⟨y', rfl, hold⟩
    · cases he
      exact ha.elim
    · obtain ⟨y'', rfl⟩ := hh.doomed x d e y' hold hexp
      exact ⟨y'' ++ [⟨a, r⟩], rfl⟩

/-- An examination that finds nothing to do. -/
theorem Walked.spare (hh : Walked now h) (he : ¬ Expired now e) :
    Walked now (h ++ [⟨.loadEmptySince c, e⟩]) where
  clock t ht := hh.clock t (by simpa using ht)
  reaped x d y hs := by
    rcases Sys.split_snoc hs with ⟨-, -, hd⟩ | ⟨y', -, hs⟩
    · cases hd
    · exact hh.reaped x d y' hs
  doomed x d e' y hs hexp := by
    rcases Sys.split_snoc hs with ⟨-, -, hd⟩ | ⟨y', rfl, hold⟩
    · cases hd
      exact absurd hexp he
    · obtain ⟨y'', rfl⟩ := hh.doomed x d e' y' hold hexp
      exact ⟨y'' ++ [⟨.loadEmptySince c, e⟩], rfl⟩

/-- One that condemns the channel, and what comes next. -/
theorem Walked.reap (hh : Walked now h) (he : Expired now e) :
    Walked now (h ++ [⟨.loadEmptySince c, e⟩] ++ [⟨.storeStop c true, ()⟩]) where
  clock t ht := hh.clock t (by simpa using ht)
  reaped x d y hs := by
    rcases Sys.split_snoc hs with ⟨-, rfl, hd⟩ | ⟨y', -, hs⟩
    · cases hd
      exact ⟨h, e, rfl, he⟩
    · rcases Sys.split_snoc hs with ⟨-, -, hd⟩ | ⟨y', -, hs⟩
      · cases hd
      · exact hh.reaped x d y' hs
  doomed x d e' y hs hexp := by
    rcases Sys.split_snoc hs with ⟨-, -, hd⟩ | ⟨y', rfl, hold⟩
    · cases hd
    · rcases Sys.split_snoc hold with ⟨rfl, -, hd⟩ | ⟨y'', rfl, holder⟩
      · cases hd
        exact ⟨[], rfl⟩
      · obtain ⟨z, rfl⟩ := hh.doomed x d e' y'' holder hexp
        exact ⟨z ++ [⟨.loadEmptySince c, e⟩] ++ [⟨.storeStop c true, ()⟩], rfl⟩

/-! ## The walk -/

theorem walked_keep {α : Type} {p : Code α} (hp : p.All Beside) :
    After (Walked now) p (fun _ => Walked now) fun _ => Walked now :=
  .keep hp fun _ _ _ ha hh => hh.beside ha

theorem beside_destroyServerBase (c : ChId) : (destroyServerBase c).All Beside :=
  (foundingOf_destroyServerBase c 0).mono fun a ha => by
    cases a <;> first | exact trivial | exact ha.2 | exact ha.elim

/-- The loop body of `check_channels`. -/
def examine (now : Msec64) (c : ChId) : Code Unit := do
  if ← call (.loadStop c) then
    let emptyTime ← call (.loadEmptySince c)
    if 0 < emptyTime ∧ 300000 < now - emptyTime then
      deleteChannel c
      call (.eraseChannel c)

theorem walked_examine (now : Msec64) (c : ChId) :
    After (Walked now) (examine now c) (fun _ => Walked now) fun _ => Walked now := by
  have hrest : (do
      if ← call (.joinable c) then call (.joinWorker c)
      destroyServerBase c : Code Unit).All Beside := by
    refine .bind (.perform trivial) fun b => ?_
    cases b with
    | true => exact .bind (.perform trivial) fun _ => beside_destroyServerBase c
    | false => exact beside_destroyServerBase c
  refine .bind (walked_keep (.perform trivial)) fun b => ?_
  cases b with
  | false => exact .ret fun _ hh => hh
  | true =>
    refine .bind (Q := fun e h => ∃ h₀, h = h₀ ++ [⟨.loadEmptySince c, e⟩] ∧ Walked now h₀)
      (.perform fun e h hh => ⟨h, rfl, hh⟩) fun e => ?_
    split
    · rename_i hexp
      refine .bind (Q := fun _ => Walked now) (.bind (Q := fun _ => Walked now)
        (.perform fun _ h hh => ?_) fun _ => walked_keep hrest) fun _ => walked_keep (.perform trivial)
      obtain ⟨h₀, rfl, hh⟩ := hh
      exact hh.reap hexp
    · rename_i hexp
      refine .ret fun h hh => ?_
      obtain ⟨h₀, rfl, hh⟩ := hh
      exact hh.spare hexp

theorem walked_checkChannels {es : Hist sig} {out : Except Err Unit}
    (hp : checkChannels.Path es out) : ∃ now es', es = ⟨.systemNow, now⟩ :: es' ∧ Walked now es := by
  obtain ⟨now, es, rfl, hwalked⟩ := Prog.path_act_iff.mp hp
  have hwalk : After (Walked now) (do
      let ids ← call .channelIds
      Prog.forEach (examine now) ids) (fun _ => Walked now) fun _ => Walked now :=
    .bind (walked_keep (.perform trivial)) fun ids => .forEach (walked_examine now) ids
  have hstart : Walked now [⟨.systemNow, now⟩] := by
    refine ⟨fun t ht => ?_, fun x c y hs => ?_, fun x c e y hs => ?_⟩
    · cases List.mem_singleton.mp ht
      rfl
    · cases x <;> simp at hs
    · cases x <;> simp at hs
  have hend : Walked now ([⟨.systemNow, now⟩] ++ es) := by
    obtain ⟨hok, herr⟩ := Prog.ends_path hwalked (hwalk _ hstart)
    cases out with
    | ok a => exact hok a rfl
    | error e => exact herr e rfl
  exact ⟨now, es, rfl, hend⟩

/-! ## Unsigned differences -/

theorem expired_of_le {now e : Msec64} (hle : e ≤ now) (h : 300000 < now - e) :
    e.toNat + 300000 < now.toNat := by
  rw [UInt64.lt_iff_toNat_lt, UInt64.toNat_sub_of_le _ _ hle] at h
  have : (300000 : Msec64).toNat = 300000 := rfl
  omega

/-- A later time gives a difference that wraps around. -/
theorem expired_iff_of_lt {now e : Msec64} (hlt : now < e) :
    Expired now e ↔ e.toNat + 300000 < now.toNat + 2 ^ 64 := by
  have hnow := now.toNat_lt
  have he := e.toNat_lt
  have h3 : (300000 : Msec64).toNat = 300000 := rfl
  have h0 : (0 : Msec64).toNat = 0 := rfl
  unfold Expired
  rw [UInt64.lt_iff_toNat_lt] at hlt
  rw [UInt64.lt_iff_toNat_lt, UInt64.lt_iff_toNat_lt, UInt64.toNat_sub, h3, h0]
  omega

end

/-- **A channel is destroyed only after five idle minutes** exactly if no examination finds a later time
than the walk began with, unless that makes no difference. -/
theorem reaped_idle_iff {rely : St → St → Prop} {τ : Nat → Msec64} {s s' : St} {es : Hist sig}
    {out : Except Err Unit} (hmono : ∀ i j, i ≤ j → τ i ≤ τ j)
    (hclock : ∀ x t y, es = x ++ ⟨.systemNow, t⟩ :: y → t = τ x.length)
    (hx : (lone .lobby rely).Exec checkChannels s es out s') : ReapedIdle τ es ↔ NoneLater τ es := by
  obtain ⟨now, es', hes, hw⟩ := walked_checkChannels hx.path
  have hnow : now = τ 0 := hclock [] now es' hes
  constructor
  · intro hreap x c e y t hs ht hlt
    obtain rfl := hw.clock t ht
    by_cases hwrap : e.toNat + 300000 < t.toNat + 2 ^ 64
    · -- the difference is large, so the channel is destroyed next
      obtain ⟨y', rfl⟩ := hw.doomed x c e y hs ((expired_iff_of_lt hlt).mpr hwrap)
      obtain ⟨x', e', hx', hidle⟩ := hreap (x ++ [⟨.loadEmptySince c, e⟩]) c y' (by simp [hs])
      obtain ⟨rfl, hlast⟩ := List.append_inj' hx' rfl
      cases hlast
      exact .inl hidle
    · exact .inr (Nat.not_lt.mp hwrap)
  · intro hnone x c y hs
    obtain ⟨x', e, rfl, hexp⟩ := hw.reaped x c y hs
    refine ⟨x', e, rfl, ?_⟩
    have hlater : now.toNat ≤ (τ x'.length).toNat := by
      rw [hnow]
      exact UInt64.le_iff_toNat_le.mp (hmono 0 _ (Nat.zero_le _))
    by_cases hle : e ≤ now
    · have := expired_of_le hle hexp.2
      omega
    · have hlt : now < e := UInt64.not_le.mp hle
      have hread : ⟨.systemNow, now⟩ ∈ es := by rw [hes]; exact List.mem_cons_self
      rcases hnone x' c e (⟨.storeStop c true, ()⟩ :: y) now (by simp [hs]) hread hlt with h | h
      · exact h
      · have := (expired_iff_of_lt hlt).mp hexp
        omega

/-- The lobby manages channel 1, which has been idle since `t`, and channel 2, which nobody is in any
more. -/
def emptied (t : Msec64) : St :=
  (((((init sample).openFile 6 (.epoll {lobbyListener})).onBase (.chan 2) fun b =>
    { b with efd := 6, runner := channelTasks }).onChan 2 fun ch => { ch with worker := .running }).onChan
      1 fun ch => { ch with stopFlag := true, emptySince := t, worker := .ended }).onLobby fun l =>
        { l with ids := [1, 2] }

/-- A millisecond passes once the walk has begun. -/
def stepClock (t : Msec64) (i : Nat) : Msec64 := if i = 0 then t else t + 1

theorem stepClock_mono (i j : Nat) (h : i ≤ j) : stepClock 400000 i ≤ stepClock 400000 j := by
  unfold stepClock
  split <;> split <;> first | decide | omega

/-- The walk reads the clock once, before anything else. -/
theorem clock_of_walk (τ : Nat → Msec64) {t : Msec64} {es : Hist sig}
    (hnow : es.head? = some ⟨.systemNow, t⟩) (honce : ∀ e ∈ es.tail, e.1 ≠ .systemNow) (ht : τ 0 = t) :
    ∀ x r y, es = x ++ ⟨.systemNow, r⟩ :: y → r = τ x.length := by
  intro x r y hs
  subst hs
  cases x with
  | nil =>
    cases hnow
    exact ht.symm
  | cons e x => exact absurd rfl (honce ⟨.systemNow, r⟩ (by simp))

/-- What the examinations found. -/
def found (es : Hist sig) : List Msec64 :=
  es.filterMap fun e =>
    match e with
    | ⟨.loadEmptySince _, v⟩ => some v
    | _ => none

theorem noneLater_of_found {τ : Nat → Msec64} {es : Hist sig} {t : Msec64}
    (hclock : ∀ x r y, es = x ++ ⟨.systemNow, r⟩ :: y → r = t) (hfound : ∀ e ∈ found es, e ≤ t) :
    NoneLater τ es := by
  intro x c e y now hs hnow hlt
  obtain ⟨a, b, hab⟩ := List.append_of_mem hnow
  obtain rfl := hclock a now b hab
  have hle : e ≤ now := hfound e (List.mem_filterMap.mpr ⟨⟨.loadEmptySince c, e⟩, by simp [hs], rfl⟩)
  exact absurd hlt (UInt64.not_lt.mpr hle)

theorem reaped_idle_since_one : ∃ es out s', (lone .lobby Eq).Exec checkChannels (emptied 1) es out s' ∧
    ⟨.storeStop 1 true, ()⟩ ∈ es ∧ ReapedIdle (fun _ => 400000) es := by
  obtain ⟨es, out, s', hx, hnow, honce, hreaped, hfound⟩ : ∃ es out s', (lone .lobby Eq).Exec
      checkChannels (emptied 1) es out s' ∧ es.head? = some ⟨.systemNow, 400000⟩ ∧
        (∀ e ∈ es.tail, e.1 ≠ .systemNow) ∧ ⟨.storeStop 1 true, ()⟩ ∈ es ∧
          found es = [1] :=
    exists_exec (fun _ => rfl) { now := 400000 } (by decide +kernel)
  have hclock := clock_of_walk (fun _ => 400000) hnow honce rfl
  exact ⟨es, out, s', hx, hreaped, (reaped_idle_iff (fun _ _ _ => UInt64.le_refl _) hclock hx).mpr
    (noneLater_of_found hclock fun e he => by
      rw [hfound, List.mem_singleton] at he
      subst he
      decide)⟩

/-- Nothing happens meanwhile, or the worker of channel 2 goes through one round of its loop. -/
def Stops (s s' : St) : Prop :=
  s' = s ∨ ∃ es out, (lone (.chan 2) Eq).Exec (proc sample (.chan 2)) s es out s'

/-- The worker of channel 2 does so before the lobby looks at its flag, a millisecond after the walk
began, and before it is joined. -/
def stopsLate (a : Act) (s : St) : St :=
  if a = .loadStop 2 ∨ a = .joinWorker 2 then
    ((executed (.chan 2) (proc sample (.chan 2)) s { now := 400001 }).map fun x => x.2.2).getD s
  else s

theorem stops_stopsLate (a : Act) (s : St) : Stops s (stopsLate a s) := by
  unfold stopsLate
  split
  · cases hx : executed (.chan 2) (proc sample (.chan 2)) s { now := 400001 } with
    | none => exact .inl rfl
    | some x =>
      exact .inr ⟨x.1, x.2.1, Solo.exec_of_execute (W := lone (.chan 2) Eq) (fun _ _ _ _ h => h)
        (fun _ => rfl) hx⟩
  · exact .inl rfl

/-- Channel 2 is destroyed in the millisecond it became idle in. -/
theorem reaped_at_once : ∃ es out s', (lone .lobby Stops).Exec checkChannels (emptied 1) es out s' ∧
    (∀ i j, i ≤ j → stepClock 400000 i ≤ stepClock 400000 j) ∧
    (∀ x t y, es = x ++ ⟨.systemNow, t⟩ :: y → t = stepClock 400000 x.length) ∧
    ¬ ReapedIdle (stepClock 400000) es := by
  obtain ⟨es, out, s', hx, hnow, honce, hreaped, hearly⟩ : ∃ es out s', (lone .lobby Stops).Exec
      checkChannels (emptied 1) es out s' ∧ es.head? = some ⟨.systemNow, 400000⟩ ∧
        (∀ e ∈ es.tail, e.1 ≠ .systemNow) ∧ ⟨.storeStop 2 true, ()⟩ ∈ es ∧
          ∀ e ∈ es, e.1 = .loadEmptySince 2 → e = ⟨.loadEmptySince 2, 400001⟩ :=
    exists_disturbed stops_stopsLate { now := 400000 } (by decide +kernel)
  refine ⟨es, out, s', hx, stepClock_mono, clock_of_walk _ hnow honce rfl, fun h => ?_⟩
  obtain ⟨x, y, rfl⟩ := List.append_of_mem hreaped
  obtain ⟨x', e, rfl, hidle⟩ := h x 2 y rfl
  cases hearly ⟨.loadEmptySince 2, e⟩ (by simp) rfl
  have hlate : (stepClock 400000 x'.length).toNat ≤ 400001 := by
    unfold stepClock
    split <;> decide
  have : (400001 : Msec64).toNat = 400001 := rfl
  omega

end ChatChannel
