import Mathlib.Data.List.Chain
import ChatChannel.Conc.Errand
import ChatChannel.Proof.Conduct
import ChatChannel.Proof.LobbyCalls
import ChatChannel.Model.Script

/-!
# How often the lobby looks after its clients and channels

`AsThrottle` wraps `check_lobby` and `check_channels`: it reads the clock and compares with the time it kept. The
lobby's own calls say when it lets them through (`throttleContract`); with the state, the times of all starts are at
least a second apart. In a window of time there is room for one start in each second of it.
-/

set_option autoImplicit false

namespace ChatChannel

open Conc

/-! ## The throttle -/

/-- The calls that are not the throttle's own. -/
def Unthrottled : Act → Prop
  | .loadThrottle | .storeThrottle _ => False
  | _ => True

/-- The throttle has read the clock as `v`, and the time `l` it kept. -/
def Weighs (v l : Msec64) (h : Hist sig) : Prop := ∃ y, h = y ++ [⟨.systemNow, v⟩, ⟨.loadThrottle, l⟩]

/-- The throttle is not about to let anything through. -/
def Aloof (h : Hist sig) : Prop := ∀ v l, Weighs v l h → ¬ 1000 ≤ v - l

/-- A time is kept when a second has passed since the one before, and then always. -/
def throttleContract : Contract sig where
  before a h :=
    (∀ v, a = .storeThrottle v → ∃ l, Weighs v l h ∧ 1000 ≤ v - l) ∧
      ∀ v l, Weighs v l h → 1000 ≤ v - l → a = .storeThrottle v
  expects
    | .beginRun, l => l = lobbyTasks
    | _, _ => True

section

variable {P : Params} {a : Act} {α : Type} {p : Code α} {h : Hist sig} {E : Err → Hist sig → Prop}

theorem Weighs.unique {v l w m : Msec64} (hw : Weighs v l h) (hw' : Weighs w m h) : w = v ∧ m = l := by
  obtain ⟨y, rfl⟩ := hw
  obtain ⟨z, hz⟩ := hw'
  obtain ⟨-, he⟩ := List.append_inj' hz rfl
  cases he
  exact ⟨rfl, rfl⟩

theorem Aloof.before (hi : Aloof h) (ha : ∀ v, a ≠ .storeThrottle v) : throttleContract.before a h :=
  ⟨fun v hv => absurd hv (ha v), fun v l hw hlate => absurd hlate (hi v l hw)⟩

theorem Unthrottled.not_store (ha : Unthrottled a) (v : Msec64) : a ≠ .storeThrottle v := by
  rintro rfl
  exact ha

theorem aloof_append (ha : a ≠ .loadThrottle) (r : Res a) : Aloof (h ++ [⟨a, r⟩]) := by
  intro v l hw
  obtain ⟨y, heq⟩ := hw
  rw [show y ++ [(⟨.systemNow, v⟩ : Call sig), ⟨.loadThrottle, l⟩] = (y ++ [⟨.systemNow, v⟩]) ++ [⟨.loadThrottle, l⟩] by
    rw [List.append_assoc]; rfl] at heq
  obtain ⟨-, he⟩ := List.append_inj' heq rfl
  cases he
  exact absurd rfl ha

theorem Unthrottled.not_load (ha : Unthrottled a) : a ≠ .loadThrottle := by
  rintro rfl
  exact ha

theorem aloof_keep (hp : p.All Unthrottled) :
    Abides throttleContract Aloof p (fun _ => Aloof) fun _ => Aloof :=
  .keep hp (fun _ _ ha hi => hi.before ha.not_store) fun _ r _ ha _ _ => aloof_append ha.not_load r

theorem aloof_ask (ha : Unthrottled a) : Abides throttleContract Aloof (call a) (fun _ => Aloof) E :=
  .perform (fun _ hi => hi.before ha.not_store) fun r _ _ _ => aloof_append ha.not_load r

/-! ## The lobby's programs -/

theorem unthrottled_of_routine (ha : Routine a) : Unthrottled a := by
  cases a <;> first | exact trivial | exact ha.elim

theorem unthrottled_of_checking (ha : Checking a) : Unthrottled a := by
  rcases ha with ha | ha
  · exact unthrottled_of_routine ha
  · cases a <;> first | exact trivial | exact ha.elim

theorem unthrottled_of_enrolling (ha : Enrolling a) : Unthrottled a := by
  cases a <;> first | exact trivial | exact ha.elim

theorem throttled_housekeeping : Abides throttleContract Aloof housekeeping (fun _ => Aloof) fun _ => Aloof := by
  have hclock : Abides throttleContract Aloof (call .systemNow)
      (fun now h => Aloof h ∧ ∃ y, h = y ++ [⟨.systemNow, now⟩]) fun _ => Aloof := by
    refine .perform (fun _ hi => hi.before (Unthrottled.not_store trivial)) fun now h _ _ => ?_
    exact ⟨aloof_append (a := .systemNow) (Unthrottled.not_load trivial) now, h, rfl⟩
  refine .bind hclock fun now => ?_
  have hload : Abides throttleContract (fun h => Aloof h ∧ ∃ y, h = y ++ [⟨.systemNow, now⟩]) (call .loadThrottle)
      (fun last => Weighs now last) fun _ => Aloof := by
    refine .perform (fun _ hs => hs.1.before fun v hv => by cases hv) fun last h _ hs => ?_
    obtain ⟨-, y, rfl⟩ := hs
    exact ⟨y, List.append_assoc ..⟩
  refine .bind hload fun last => ?_
  dsimp only
  by_cases hearly : now - last < 1000
  · rw [if_pos hearly]
    refine .ret fun h hw v l hw' => ?_
    obtain ⟨rfl, rfl⟩ := hw.unique hw'
    exact UInt64.not_le.mpr hearly
  · rw [if_neg hearly]
    have hlate : 1000 ≤ now - last := UInt64.not_lt.mp hearly
    have hstore : Abides throttleContract (Weighs now last) (call (.storeThrottle now)) (fun _ => Aloof)
        fun _ => Aloof := by
      refine .perform (fun h hw => ⟨fun v hv => ?_, fun v l hw' _ => ?_⟩) fun r h _ _ => ?_
      · cases hv
        exact ⟨last, hw, hlate⟩
      · rw [(hw.unique hw').1]
      · exact aloof_append (a := .storeThrottle now) (fun hl => by cases hl) r
    exact .bind hstore fun _ => .bind (aloof_keep (checking_checkLobby.mono fun _ => unthrottled_of_checking)) fun _ =>
      aloof_keep (checking_checkChannels.mono fun _ => unthrottled_of_checking)

theorem throttled_lobbyTask {x : Task} (hx : x ∈ lobbyTasks.flatten) :
    Abides throttleContract Aloof (runTask P .lobby x) (fun _ => Aloof) fun _ => Aloof := by
  by_cases hhouse : x = .housekeeping
  · subst hhouse
    exact throttled_housekeeping
  · exact aloof_keep (all_lobbyTask (fun _ => unthrottled_of_routine)
      (fun c n ts b => (enrolling_hand_over c n ts b).1.mono fun _ => unthrottled_of_enrolling)
      (fun c n ts => (enrolling_hand_over c n ts true).2.mono fun _ => unthrottled_of_enrolling) hx hhouse)

/-- The lobby's thread, round after round. -/
theorem throttled_lobby : Abides throttleContract Aloof (proc P .lobby) (fun _ => Aloof) fun _ _ => False := by
  refine abides_lobby (fun _ hl => hl) (fun a ha h hi => ?_) fun x hx => throttled_lobbyTask hx
  have hun : Unthrottled a := by rcases ha with rfl | rfl | rfl <;> trivial
  exact ⟨hi.before hun.not_store, fun r => aloof_append hun.not_load r⟩

/-! ## What is behind it -/

/-- The two checks. -/
def checks : Code Unit := do
  checkLobby
  checkChannels

/-- A time is kept where the checks begin, and they are made nowhere else. -/
def looking : Errand sig where
  enter
    | ⟨.storeThrottle _, _⟩ => some checks
    | _ => none
  inside := Survey

variable {expects : (a : Act) → Res a → Prop}

theorem plain_of_unthrottled (ha : Unthrottled a) : looking.Plain a := by
  cases a <;> first | exact fun _ => rfl | exact ha.elim

theorem plain_checks : checks.All looking.Plain :=
  .bind (checking_checkLobby.mono fun _ ha => plain_of_unthrottled (unthrottled_of_checking ha)) fun _ =>
    checking_checkChannels.mono fun _ ha => plain_of_unthrottled (unthrottled_of_checking ha)

theorem looking_parts : ∀ e p, looking.enter e = some p → p.All looking.Plain := by
  rintro ⟨a, r⟩ p he
  cases a <;> cases he
  exact plain_checks

theorem outside_of_routine (ha : Routine a) : looking.Plain a ∧ ¬ looking.inside a :=
  ⟨plain_of_unthrottled (unthrottled_of_routine ha), fun hs => by cases a <;> first | exact hs.elim | exact ha.elim⟩

theorem outside_of_enrolling (ha : Enrolling a) : looking.Plain a ∧ ¬ looking.inside a :=
  ⟨plain_of_unthrottled (unthrottled_of_enrolling ha), fun hs => by cases a <;> first | exact hs.elim | exact ha.elim⟩

theorem look_housekeeping : Abides (looking.contract expects) looking.Idle housekeeping (fun _ => looking.Idle)
    fun _ => looking.Idle := by
  have hask {a : Act} (ha : looking.Plain a ∧ ¬ looking.inside a) : Abides (looking.contract expects) looking.Idle (call a)
      (fun _ => looking.Idle) fun _ => looking.Idle := Errand.abides_outside (.perform ha)
  refine .bind (hask ⟨fun _ => rfl, id⟩) fun now => .bind (hask ⟨fun _ => rfl, id⟩) fun last => ?_
  split
  · exact .ret fun _ h => h
  · have hstore : Abides (looking.contract expects) looking.Idle (call (.storeThrottle now))
        (fun _ h => looking.left h = checks) fun _ => looking.Idle := Errand.abides_enter id fun _ => rfl
    exact .bind hstore fun _ => Errand.abides_part plain_checks

theorem look_lobby : Abides (looking.contract throttleContract.expects) looking.Idle (proc P .lobby)
    (fun _ => looking.Idle) fun _ _ => False := by
  refine abides_lobby (fun _ hl => hl) (fun a ha h hi => ?_) fun x hx => ?_
  · have hout : looking.Plain a ∧ ¬ looking.inside a := by
      rcases ha with rfl | rfl | rfl <;> exact ⟨fun _ => rfl, id⟩
    exact ⟨hi.allows hout.2, fun r => hi.snoc hout.1 r⟩
  · by_cases hhouse : x = .housekeeping
    · subst hhouse
      exact look_housekeeping
    · exact Errand.abides_outside (all_lobbyTask (fun _ => outside_of_routine)
        (fun c n ts b => (enrolling_hand_over c n ts b).1.mono fun _ => outside_of_enrolling)
        (fun c n ts => (enrolling_hand_over c n ts true).2.mono fun _ => outside_of_enrolling) hx hhouse)

end

/-! ## Times -/

/-- What the clock answered. -/
def readings (h : Hist sig) : List Msec64 :=
  h.filterMap fun e => match e with
    | ⟨.systemNow, v⟩ => some v
    | _ => none

/-- When `check_lobby` and `check_channels` were started. -/
def starts (h : Hist sig) : List Msec64 :=
  h.filterMap fun e => match e with
    | ⟨.storeThrottle v, _⟩ => some v
    | _ => none

theorem readings_append (x y : Hist sig) : readings (x ++ y) = readings x ++ readings y := List.filterMap_append

theorem starts_append (x y : Hist sig) : starts (x ++ y) = starts x ++ starts y := List.filterMap_append

/-- Every start has a reading of its own. -/
theorem starts_sublist (h : Hist sig) (hc : ∀ x e y, h = x ++ e :: y → throttleContract.before e.1 x) :
    (starts h).Sublist (readings h) := by
  induction hn : h.length using Nat.strong_induction_on generalizing h with
  | _ n ih =>
    rcases List.eq_nil_or_concat h with rfl | ⟨x, e, rfl⟩
    · exact .slnil
    · rw [List.concat_eq_append] at hc hn ⊢
      have hx : ∀ z d y, x = z ++ d :: y → throttleContract.before d.1 z := by
        intro z d y hs
        apply hc z d (y ++ [e])
        rw [hs, List.append_assoc]
        rfl
      have hlen : x.length < n := by
        rw [← hn, List.length_append]
        exact Nat.lt_succ_self _
      rw [starts_append, readings_append]
      by_cases hstart : ∃ v, e.1 = .storeThrottle v
      · obtain ⟨a, r⟩ := e
        obtain ⟨v, rfl⟩ := hstart
        -- the last reading is that of this start, and not one of those before
        obtain ⟨l, ⟨y, rfl⟩, -⟩ := (hc x ⟨.storeThrottle v, r⟩ [] rfl).1 v rfl
        have hy : (starts y).Sublist (readings y) := by
          refine ih y.length (lt_of_le_of_lt ?_ hlen) y (fun z d w hs =>
          hx z d (w ++ [⟨.systemNow, v⟩, ⟨.loadThrottle, l⟩]) ?_) rfl
          · rw [List.length_append]
            exact Nat.le_add_right _ _
          · rw [hs, List.append_assoc]
            rfl
        rw [starts_append, readings_append, List.append_assoc, List.append_assoc]
        exact hy.append (List.Sublist.refl [v])
      · have hnone : starts [e] = [] := by
          obtain ⟨a, r⟩ := e
          cases a <;> first | rfl | exact absurd ⟨_, rfl⟩ hstart
        rw [hnone, List.append_nil]
        exact (ih x.length hlen x hx rfl).trans (List.sublist_append_left _ _)

/-- In a window of time there is room for few of the times in a list where each is `k` behind the ones before. -/
theorem spaced_length {k : Nat} (hk : 0 < k) {l : List Nat} (hl : l.Pairwise fun v w => v + k ≤ w) {a b : Nat}
    (hab : ∀ v ∈ l, a ≤ v ∧ v < b) : k * l.length < b - a + k := by
  induction l generalizing a with
  | nil =>
    rw [List.length_nil, Nat.mul_zero]
    exact Nat.add_pos_right _ hk
  | cons v l ih =>
    obtain ⟨hv, hl⟩ := List.pairwise_cons.mp hl
    obtain ⟨hav, hvb⟩ := hab v List.mem_cons_self
    have hrest := ih hl (a := v + k) fun w hw => ⟨hv w hw, (hab w (List.mem_cons_of_mem v hw)).2⟩
    rw [List.length_cons, Nat.mul_succ]
    cases l with
    | nil =>
      rw [List.length_nil, Nat.mul_zero]
      omega
    | cons w l =>
      have hw := hv w List.mem_cons_self
      have hwb := (hab w (List.mem_cons_of_mem v List.mem_cons_self)).2
      omega

/-- With a clock that does not go back, the distance of two times is the one in milliseconds. -/
theorem spaced_times {l : List Msec64} (hmono : l.Pairwise (· ≤ ·)) (hchain : l.IsChain fun v w => 1000 ≤ w - v) :
    (l.map UInt64.toNat).Pairwise fun v w => v + 1000 ≤ w := by
  have htwo {v w : Msec64} (hle : v ≤ w) (hlate : 1000 ≤ w - v) : v.toNat + 1000 ≤ w.toNat := by
    have hsub : (w - v).toNat = w.toNat - v.toNat := UInt64.toNat_sub_of_le w v hle
    have h := UInt64.le_iff_toNat_le.mp hlate
    rw [hsub] at h
    have hv := UInt64.le_iff_toNat_le.mp hle
    change 1000 ≤ _ at h
    omega
  have hboth : l.IsChain fun v w => v.toNat + 1000 ≤ w.toNat := by
    induction l with
    | nil => exact .nil
    | cons v l ih =>
      obtain ⟨hle, hmono⟩ := List.pairwise_cons.mp hmono
      obtain ⟨hfirst, hchain⟩ := List.isChain_cons.mp hchain
      exact List.isChain_cons.mpr ⟨fun w hw => htwo (hle w (List.mem_of_mem_head? hw)) (hfirst w hw), ih hmono hchain⟩
  have htrans : Trans (fun v w : Nat => v + 1000 ≤ w) (fun v w => v + 1000 ≤ w) fun v w => v + 1000 ≤ w :=
    ⟨fun h h' => by omega⟩
  exact List.isChain_iff_pairwise.mp ((List.isChain_map _).mpr hboth)

/-! ## Runs -/

variable {P : Params} {tr : List Ev} {c : Config sig Srv St}

/-- The lobby is told the lobby's tasks. -/
theorem expects_lobby (h : (server P).Run (init P) tr c) :
    ∀ e ∈ tr, e.tid = .lobby → throttleContract.expects e.act e.res := by
  intro e he ht
  have hans := expects_run h e he
  obtain ⟨t, a, r, s, s'⟩ := e
  obtain rfl := ht
  cases a <;> exact hans

theorem throttle_own (h : (server P).Run (init P) tr c) :
    ∀ z d w, Sys.own .lobby tr = z ++ d :: w → throttleContract.before d.1 z := by
  have hnil : Aloof [] := by
    rintro v l ⟨y, hy⟩
    cases y <;> cases hy
  have hbody : Abides throttleContract Aloof ((server P).body .lobby) (fun _ => Aloof) fun _ _ => False := throttled_lobby
  exact (h.keeps hnil hbody (expects_lobby h)).2

theorem throttle_run (h : (server P).Run (init P) tr c) {x y : List Ev} {e : Ev} (hs : tr = x ++ e :: y)
    (ht : e.tid = .lobby) : throttleContract.before e.act (Sys.own .lobby x) := by
  refine throttle_own h _ ⟨e.act, e.res⟩ (Sys.own .lobby y) ?_
  rw [hs, Sys.own_append, ← ht, Sys.own_cons_self]

theorem look_kept (h : (server P).Run (init P) tr c) : looking.Kept (Sys.own .lobby tr) := by
  have hbody : Abides (looking.contract throttleContract.expects) looking.Idle ((server P).body .lobby)
      (fun _ => looking.Idle) fun _ _ => False := look_lobby
  exact (h.keeps (Errand.idle_nil (X := looking)) hbody (expects_lobby h)).2

/-- What the object keeps is the time of the last start, and what was last loaded is what it keeps. -/
structure Throttled (h : Hist sig) (s : St) : Prop where
  last : s.lobby.throttle = (starts h).getLastD 0
  loaded : ∀ y l, h = y ++ [⟨.loadThrottle, l⟩] → l = s.lobby.throttle

theorem starts_none {a : Act} {r : Res a} (ha : ∀ v, a ≠ .storeThrottle v) (h : Hist sig) :
    starts (h ++ [⟨a, r⟩]) = starts h := by
  have hnone : starts [⟨a, r⟩] = [] := by cases a <;> first | rfl | exact absurd rfl (ha _)
  rw [starts_append, hnone, List.append_nil]

theorem throttle_exec {t : Srv} {a : Act} {r : Res a} {s s' : St} (h : exec t a r s = some s')
    (ha : ∀ v, a ≠ .storeThrottle v) : s'.lobby.throttle = s.lobby.throttle := by
  rw [exec_lobby h]
  cases a <;> first | rfl | exact absurd rfl (ha _)

theorem kept_run (h : (server P).Run (init P) tr c) :
    ∀ x e y, tr = x ++ e :: y → Throttled (Sys.own .lobby x) e.pre := by
  refine (h.along (I := fun x s => Throttled (Sys.own .lobby x) s) ⟨rfl, fun y l hy => ?_⟩ fun x e y hs hi => ?_).2
  · cases y <;> cases hy
  have hl := legal h e (by rw [hs]; simp)
  obtain ⟨t, a, r, s, s'⟩ := e
  cases t with
  | chan d =>
    have hstore (v : Msec64) : a ≠ .storeThrottle v := by
      rintro rfl
      exact hl.pre.2.elim
    have hsame : s'.lobby.throttle = s.lobby.throttle := throttle_exec hl.exec hstore
    rw [Sys.own_snoc_ne x (e := ⟨.chan d, a, r, s, s'⟩) (t := .lobby) (by simp)]
    exact ⟨hsame.trans hi.last, fun y l hy => (hi.loaded y l hy).trans hsame.symm⟩
  | lobby =>
    rw [Sys.own_snoc_self x ⟨.lobby, a, r, s, s'⟩]
    by_cases hstore : ∃ v, a = .storeThrottle v
    · obtain ⟨v, rfl⟩ := hstore
      constructor
      · show s'.lobby.throttle = _
        rw [exec_lobby hl.exec, starts_append]
        exact (List.getLastD_concat ..).symm
      · intro y l hy
        obtain ⟨-, he⟩ := List.append_inj' hy rfl
        cases he
    · have hne (v : Msec64) : a ≠ .storeThrottle v := fun hv => hstore ⟨v, hv⟩
      have hsame : s'.lobby.throttle = s.lobby.throttle := throttle_exec hl.exec hne
      refine ⟨?_, fun y l hy => ?_⟩
      · show s'.lobby.throttle = _
        rw [hsame, starts_none hne]
        exact hi.last
      · obtain ⟨-, he⟩ := List.append_inj' hy rfl
        cases he
        exact (need_eq_some.mp hl.exec).1.trans hsame.symm

/-- Each start is a second after the one before; the first one is a second after time 0. -/
theorem starts_spaced (h : (server P).Run (init P) tr c) :
    (0 :: starts (Sys.own .lobby tr)).IsChain fun v w => 1000 ≤ w - v := by
  refine (h.along (I := fun x _ => (0 :: starts (Sys.own .lobby x)).IsChain fun v w => 1000 ≤ w - v)
    (.singleton 0) fun x e y hs hi => ?_).1
  have hkept := kept_run h x e y hs
  have hbefore := throttle_run h hs
  obtain ⟨t, a, r, s, s'⟩ := e
  cases t with
  | chan d =>
    rw [Sys.own_snoc_ne x (e := ⟨.chan d, a, r, s, s'⟩) (t := .lobby) (by simp)]
    exact hi
  | lobby =>
    rw [Sys.own_snoc_self x ⟨.lobby, a, r, s, s'⟩]
    by_cases hstore : ∃ v, a = .storeThrottle v
    · obtain ⟨v, rfl⟩ := hstore
      obtain ⟨l, ⟨z, hz⟩, hlate⟩ := (hbefore rfl).1 v rfl
      have hl : l = s.lobby.throttle := hkept.loaded (z ++ [⟨.systemNow, v⟩]) l (by
        rw [List.append_assoc]
        exact hz)
      rw [starts_append, ← List.cons_append]
      refine List.isChain_append.mpr ⟨hi, .singleton v, fun u hu w hw => ?_⟩
      cases hw
      rw [hl, hkept.last, List.getLastD_eq_getLast?] at hlate
      rw [List.getLast?_cons] at hu
      cases hu
      exact hlate
    · rw [starts_none fun v hv => hstore ⟨v, hv⟩]
      exact hi

/-- **The lobby looks after its clients and channels once a second at most**, and whenever it is due: after it read
the clock as `v` and the kept time as `l`, it goes on with a start exactly if `v - l` is a second or more. A start is one
of `check_lobby` and then `check_channels`, and they are not at work but after one. Each start is a second after the one
before, in the arithmetic of `msec64`; with a clock that does not go back, a window of time has at most one start for
each second begun in it. -/
theorem housekeeping_paced (h : (server P).Run (init P) tr c) :
    (∀ x e y, tr = x ++ e :: y → e.tid = .lobby → ((∃ v, e.act = .storeThrottle v) ↔
      ∃ v l, Weighs v l (Sys.own .lobby x) ∧ 1000 ≤ v - l)) ∧
    (∀ y v z, Sys.own .lobby tr = y ++ ⟨.storeThrottle v, ()⟩ :: z → checks.Opens z) ∧
    (∀ y e z, Sys.own .lobby tr = y ++ e :: z → Survey e.1 →
      ∃ y' v z' k, y = y' ++ ⟨.storeThrottle v, ()⟩ :: z' ∧ checks.Reaches z' (.act e.1 k)) ∧
    (0 :: starts (Sys.own .lobby tr)).IsChain (fun v w => 1000 ≤ w - v) ∧
    ((readings (Sys.own .lobby tr)).Pairwise (· ≤ ·) → ∀ a b : Nat,
      1000 * ((starts (Sys.own .lobby tr)).filter fun v => a ≤ v.toNat ∧ v.toNat < b).length < b - a + 1000) := by
  have hkept := look_kept h
  refine ⟨fun x e y hs ht => ?_, fun y v z hs => Errand.opens looking_parts hkept hs rfl, fun y e z hs hsurvey => ?_,
    starts_spaced h, fun hclock a b => ?_⟩
  · have hbefore := throttle_run h hs ht
    constructor
    · rintro ⟨v, hv⟩
      obtain ⟨l, hw, hlate⟩ := hbefore.1 v hv
      exact ⟨v, l, hw, hlate⟩
    · rintro ⟨v, l, hw, hlate⟩
      exact ⟨v, hbefore.2 v l hw hlate⟩
  · obtain ⟨y', d, z', p, k, rfl, hd, hreach⟩ := Errand.reaches hkept hs hsurvey
    obtain ⟨a, r⟩ := d
    cases a <;> cases hd
    exact ⟨y', _, z', k, rfl, hreach⟩
  · have hmono : (starts (Sys.own .lobby tr)).Pairwise (· ≤ ·) := hclock.sublist (starts_sublist _ (throttle_own h))
    have hchain := (List.isChain_cons.mp (starts_spaced h)).2
    have htimes : ((starts (Sys.own .lobby tr)).map UInt64.toNat).Pairwise fun v w => v + 1000 ≤ w :=
      spaced_times hmono hchain
    rw [← List.length_map UInt64.toNat]
    refine spaced_length (by decide) (htimes.sublist (List.filter_sublist.map _)) fun n hn => ?_
    obtain ⟨v, hv, rfl⟩ := List.mem_map.mp hn
    exact of_decide_eq_true (List.mem_filter.mp hv).2

theorem housekeeping_paced_twice : ∃ tr c, (server sample).Run (init sample) tr c ∧
    starts (Sys.own .lobby tr) = [1500, 2600] ∧
    (0 :: starts (Sys.own .lobby tr)).IsChain (fun v w => 1000 ≤ w - v) ∧
    (∃ y z, Sys.own .lobby tr = y ++ ⟨.storeThrottle 1500, ()⟩ :: z ∧ checks.Opens z) ∧
    (∃ y l z y' v z' k, Sys.own .lobby tr = y ++ ⟨.getLastAct, l⟩ :: z ∧ y = y' ++ ⟨.storeThrottle v, ()⟩ :: z' ∧
      checks.Reaches z' (.act .getLastAct k)) ∧
    1000 * ((starts (Sys.own .lobby tr)).filter fun v => 1000 ≤ v.toNat ∧ v.toNat < 3000).length < 3000 - 1000 + 1000 := by
  -- the second round is in time, and the third comes too soon after it
  obtain ⟨tr, c, hr, hstarts, hclock, hstore, hlook⟩ := exists_run (P := sample)
    (p := fun tr _ => starts (Sys.own .lobby tr) = [1500, 2600] ∧ (readings (Sys.own .lobby tr)).Pairwise (· ≤ ·) ∧
      ⟨.storeThrottle 1500, ()⟩ ∈ Sys.own .lobby tr ∧ ⟨.getLastAct, []⟩ ∈ Sys.own .lobby tr)
    [tick .lobby {}, tick .lobby { now := 1500 }, tick .lobby { now := 1600 }, tick .lobby { now := 2600 }]
    (by decide +kernel)
  obtain ⟨-, hopens, hreaches, hchain, hwindow⟩ := housekeeping_paced hr
  obtain ⟨y, z, hs⟩ := List.append_of_mem hstore
  obtain ⟨u, w, hs'⟩ := List.append_of_mem hlook
  obtain ⟨y', v, z', k, hu, hreach⟩ := hreaches u _ w hs' trivial
  exact ⟨tr, c, hr, hstarts, hchain, ⟨y, z, hs, hopens y 1500 z hs⟩, ⟨u, _, w, y', v, z', k, hs', hu, hreach⟩,
    hwindow hclock 1000 3000⟩

end ChatChannel
