import ChatChannel.Model.Script
import ChatChannel.Proof.Founding
import ChatChannel.Proof.Reply

/-!
# The reports of a batch

`consume_report` moves the whole queue into a local variable and handles one report after the other. An
exception leaves the loop and takes the rest of the queue with it. A report is handled as long as making
and restarting channels goes well, and the reports behind it as long as no reply fails on the way
(`none_lost_iff`).
-/

set_option autoImplicit false

namespace ChatChannel

open Conc

/-! ## What becomes of a report -/

/-- The reports that were taken from the local queue, each with the calls made until the next. -/
def parts : Hist sig → List (ChannelReport × Hist sig)
  | [] => []
  | ⟨.nextReport, some r⟩ :: es => (r, es.takeWhile fun e => e.1 ≠ .nextReport) :: parts es
  | _ :: es => parts es

/-- The user is put into the pool of the channel it asks for, and the channel it is in is asked to let go
of it. -/
def Applied (r : ChannelReport) (es : Hist sig) : Prop :=
  (∃ m, ⟨.emplaceJoin r.join.chTo r.from' m, ()⟩ ∈ es) ∧
    ∃ m, ⟨.emplaceLeave r.join.chFrom r.from' m, ()⟩ ∈ es

/-- The user is told that the channel is full, or at least that was tried. -/
def Declined (r : ChannelReport) (es : Hist sig) : Prop :=
  ∃ x, ⟨.send r.from' (hexHeader channelFull.length), x⟩ ∈ es

/-- Every report of the queue was handled. -/
def NoneLost (q : List ChannelReport) (es : Hist sig) : Prop :=
  (parts es).map Prod.fst = q ∧ ∀ p ∈ parts es, Applied p.1 p.2 ∨ Declined p.1 p.2

/-- Nothing is refused, and every reply is sent but perhaps the one to the last report. -/
def Granted (q : List ChannelReport) (es : Hist sig) : Prop :=
  (∀ e ∈ es, ¬ Denied e) ∧ ∀ i r calls, (parts es)[i]? = some (r, calls) → i + 1 < q.length →
    ∀ e ∈ calls, ¬ Unsent channelFull e

/-- The queue that is taken is `q`, and the users of its reports have names. -/
def Takes (q : List ChannelReport) : Act → St → Prop
  | .popReports, s => s.lobby.reports = q
  | .getUserName n, s => (s.names n).isSome
  | _, _ => True

/-- What the other threads do meanwhile: the local queue is the lobby's, and so are the sessions of a
channel that is being made. -/
structure Unread (s s' : St) : Prop where
  localQ : s'.lobby.localQ = s.lobby.localQ
  runner : ∀ c, (s'.base (.chan c)).runner = (s.base (.chan c)).runner

/-- The lobby's thread as it takes the queue `q`. -/
def taking (q : List ChannelReport) (rely : St → St → Prop) : Solo sig St :=
  (lone .lobby rely).restrict (Takes q)

section

variable {P : Params} {q : List ChannelReport} {rely : St → St → Prop} {c : ChId} {a : Act}
  {E : Err → Hist sig → St → Prop} {h : Hist sig} {s s' : St} {r : Res a}

theorem founder_taking (hrely : ∀ s s', rely s s' → Unread s s') : Founder (taking q rely) where
  step _ _ _ _ h _ := h.2
  runner s s' hr := (hrely s s' hr).runner

/-! ## One report -/

/-- Calls that neither put anybody into a pool nor answer. -/
def Tacit : Act → Prop
  | .emplaceJoin _ _ _ | .send _ _ => False
  | _ => True

/-- Nothing has been done for the report. -/
def Untouched (h : Hist sig) : Prop := ∀ e ∈ h, Tacit e.1

/-- All sends went well. -/
def Full (h : Hist sig) : Prop := ∀ e ∈ h, ¬ Unsent channelFull e

theorem untouched_snoc {e : Call sig} : Untouched (h ++ [e]) ↔ Untouched h ∧ Tacit e.1 := by
  unfold Untouched
  rw [List.forall_mem_append, List.forall_mem_singleton]

theorem full_snoc {e : Call sig} : Full (h ++ [e]) ↔ Full h ∧ ¬ Unsent channelFull e := by
  unfold Full
  rw [List.forall_mem_append, List.forall_mem_singleton]

theorem Tacit.sent (ha : Tacit a) : ¬ Unsent channelFull ⟨a, r⟩ := by
  intro hu
  cases a
  case send n b => exact ha
  all_goals exact hu

theorem Untouched.full (hh : Untouched h) : Full h := fun e he => (hh e he).sent

/-- The report is as it was, and nothing was refused. -/
def Unbegun (h : Hist sig) (_ : St) : Prop := Allowed h ∧ Untouched h

/-- `φ` was done, or nothing because something was refused. -/
def Went (φ : Hist sig → Prop) (h : Hist sig) (_ : St) : Prop :=
  (Allowed h ∧ φ h ∧ Full h) ∨ ¬ Allowed h ∧ Untouched h

/-- The reply failed, or nothing was done because something was refused. -/
def Foiled (r : ChannelReport) (h : Hist sig) (_ : St) : Prop :=
  (Allowed h ∧ Declined r h ∧ ¬ Full h) ∨ ¬ Allowed h ∧ Untouched h

/-- Calls that do not matter to a report. -/
def Idling (a : Act) : Prop := Tacit a ∧ ∀ r : Res a, ¬ Denied ⟨a, r⟩

variable {φ : Hist sig → Prop}

theorem exec_unbegun (a : Act) (ha : Idling a) :
    (taking q rely).Triple Unbegun (call a) (fun _ => Unbegun) E :=
  .perform (fun _ _ _ hs _ => hs) fun _ _ _ _ hs _ =>
    ⟨hs.1.snoc ha.2, untouched_snoc.mpr ⟨hs.2, ha.1⟩⟩

theorem exec_went (a : Act) (ha : Idling a) (hφ : ∀ h e, φ h → φ (h ++ [e])) :
    (taking q rely).Triple (Went φ) (call a) (fun _ => Went φ) E := by
  refine .perform (fun _ _ _ hs _ => hs) fun r h s s' hs _ => ?_
  rcases hs with ⟨hc, hd, hf⟩ | ⟨hc, hq⟩
  · exact .inl ⟨hc.snoc ha.2, hφ h _ hd, full_snoc.mpr ⟨hf, ha.1.sent⟩⟩
  · exact .inr ⟨not_allowed_snoc hc, untouched_snoc.mpr ⟨hq, ha.1⟩⟩

/-- A channel is there afterwards, or something was refused. -/
theorem exec_channel (hrely : ∀ s s', rely s s' → Unread s s') :
    (taking q rely).Triple Unbegun (getChannel P c) (fun _ => Unbegun) fun _ h _ => ¬ Allowed h ∧ Untouched h := by
  have huntouched : (taking q rely).Triple (fun h _ => Untouched h) (getChannel P c) (fun _ h _ => Untouched h)
      fun _ h _ => Untouched h :=
    .keep (fun _ _ _ hs _ => hs) (founding_getChannel P c) fun a r h _ _ ha hs _ =>
      untouched_snoc.mpr ⟨hs, by cases a <;> first | exact trivial | exact ha.elim⟩
  exact (exec_getChannel (founder_taking hrely)).and huntouched

/-- The user is put into the pool. -/
def Entered (c : ChId) (n : Fd) (h : Hist sig) : Prop := ∃ m, ⟨.emplaceJoin c n m, ()⟩ ∈ h

variable {n : Fd} {ts : Msec64} {re : Bool}

/-- The user has a name. -/
theorem exec_named {A : Hist sig → St → Prop} (hst : (taking q rely).Stable A)
    (hA : ∀ o h s s', A h s → A (h ++ [⟨.getUserName n, o⟩]) s') :
    (taking q rely).Triple A (call (.getUserName n)) (fun o h s => o.isSome ∧ A h s) E := by
  refine .perform hst fun o h s s' hs hx => ⟨?_, hA o h s s' hs⟩
  obtain ⟨hname, hx⟩ := hx
  rw [(need_eq_some.mp hx).1]
  exact hname

theorem exec_enter (m : MessageReqDto) : (taking q rely).Triple Unbegun (join c n m)
    (fun _ => Went (Entered c n)) fun _ h _ => ¬ Allowed h ∧ Untouched h := by
  have hput : (taking q rely).Triple Unbegun (call (.emplaceJoin c n m))
      (fun _ => Went (Entered c n)) fun _ h _ => ¬ Allowed h ∧ Untouched h := by
    refine .perform (fun _ _ _ hs _ => hs) fun r h s s' hs _ => .inl ⟨hs.1.snoc fun r hr => hr, ?_, ?_⟩
    · exact ⟨m, List.mem_append_right _ (List.mem_singleton.mpr rfl)⟩
    · exact full_snoc.mpr ⟨hs.2.full, fun hu => hu⟩
  have hstart : (taking q rely).Triple Unbegun (do
      unless ← call (.startWorker c) do throw Err.threadFailed
      call (.storeStop c false)
      call (.storeEmptySince c 0)
      call (.emplaceJoin c n m)) (fun _ => Went (Entered c n)) fun _ h _ => ¬ Allowed h ∧ Untouched h := by
    refine .bind (Q := fun b h s => if b = true then Unbegun h s else ¬ Allowed h ∧ Untouched h)
      (.perform (fun _ _ _ hs _ => hs) fun b h s s' hs _ => ?_) fun b => ?_
    · cases b with
      | true => exact ⟨hs.1.snoc_of fun hr => hr, untouched_snoc.mpr ⟨hs.2, trivial⟩⟩
      | false => exact ⟨fun hc => (allowed_snoc.mp hc).2 trivial, untouched_snoc.mpr ⟨hs.2, trivial⟩⟩
    · cases b with
      | false => exact .raise fun _ _ hs => hs
      | true =>
        exact .bind (exec_unbegun (.storeStop c false) ⟨trivial, fun r hr => hr⟩) fun _ =>
          .bind (exec_unbegun (.storeEmptySince c 0) ⟨trivial, fun r hr => hr⟩) fun _ => hput
  refine .bind (exec_unbegun (.loadStop c) ⟨trivial, fun r hr => hr⟩) fun b => ?_
  cases b with
  | false => exact hput
  | true =>
    refine .bind (exec_unbegun (.joinable c) ⟨trivial, fun r hr => hr⟩) fun b => ?_
    cases b with
    | false => exact hstart
    | true => exact .bind (exec_unbegun (.joinWorker c) ⟨trivial, fun r hr => hr⟩) fun _ => hstart

theorem exec_joinAndLogging : (taking q rely).Triple Unbegun (joinAndLogging c n ts re)
    (fun _ => Went (Entered c n)) E := by
  refine .handle (E := fun _ h _ => ¬ Allowed h ∧ Untouched h) (.bind (exec_named (fun _ _ _ hs _ => hs)
    fun o h s s' hs => ⟨hs.1.snoc fun r hr => hr, untouched_snoc.mpr ⟨hs.2, trivial⟩⟩) fun o =>
      .pure fun ho => ?_) fun _ => .ret fun _ _ hs => .inr hs
  cases o with
  | none => cases ho
  | some u => exact exec_enter _

/-- The leave is requested. -/
theorem exec_leaveAndLogging (hφ : ∀ h e, φ h → φ (h ++ [e])) :
    (taking q rely).Triple (Went φ) (leaveAndLogging c n ts)
      (fun _ => Went fun h => φ h ∧ ∃ m, ⟨.emplaceLeave c n m, ()⟩ ∈ h) E := by
  refine .handle (E := fun _ _ _ => False) (.bind (exec_named (fun _ _ _ hs _ => hs)
    fun o h s s' hs => ?_) fun o => .pure fun ho => ?_) fun _ h s hs => hs.elim
  · rcases hs with ⟨hc, hd, hf⟩ | ⟨hc, hq⟩
    · exact .inl ⟨hc.snoc fun r hr => hr, hφ h _ hd, full_snoc.mpr ⟨hf, fun hu => hu⟩⟩
    · exact .inr ⟨not_allowed_snoc hc, untouched_snoc.mpr ⟨hq, trivial⟩⟩
  · cases o with
    | none => cases ho
    | some u =>
      refine .perform (fun _ _ _ hs _ => hs) fun r h s s' hs _ => ?_
      rcases hs with ⟨hc, hd, hf⟩ | ⟨hc, hq⟩
      · exact .inl ⟨hc.snoc fun r hr => hr, ⟨hφ h _ hd, _, List.mem_append_right _
          (List.mem_singleton.mpr rfl)⟩, full_snoc.mpr ⟨hf, fun hu => hu⟩⟩
      · exact .inr ⟨not_allowed_snoc hc, untouched_snoc.mpr ⟨hq, trivial⟩⟩

/-- The reply is attempted, whatever becomes of it. -/
theorem exec_attempt (n : Fd) : (taking q rely).Triple (fun _ _ => True) (sendFrame n channelFull)
    (fun _ h _ => ∃ x, ⟨.send n (hexHeader channelFull.length), x⟩ ∈ h)
    fun _ h _ => ∃ x, ⟨.send n (hexHeader channelFull.length), x⟩ ∈ h := by
  unfold sendFrame
  simp only [show channelFull.length % 2 ^ 32 = channelFull.length from rfl]
  rw [if_neg (by decide), if_neg (by decide)]
  have hkeep {p : Code Unit} (hp : p.All fun _ => True) : (taking q rely).Triple
      (fun h _ => ∃ x, ⟨.send n (hexHeader channelFull.length), x⟩ ∈ h) p
      (fun _ h _ => ∃ x, ⟨.send n (hexHeader channelFull.length), x⟩ ∈ h)
      fun _ h _ => ∃ x, ⟨.send n (hexHeader channelFull.length), x⟩ ∈ h :=
    .keep (fun _ _ _ hs _ => hs) hp fun _ _ _ _ _ _ hs _ => by
      obtain ⟨x, hx⟩ := hs
      exact ⟨x, List.mem_append_left _ hx⟩
  refine .bind (.perform (fun _ _ _ hs _ => hs) fun r h s s' _ _ =>
    ⟨r, List.mem_append_right _ (List.mem_singleton.mpr rfl)⟩) fun r => hkeep ?_
  split
  · exact all_sendRest (fun _ => trivial) _ _
  · trivial

theorem exec_reply (r : ChannelReport) : (taking q rely).Triple Unbegun (sendFrame r.from' channelFull)
    (fun _ => Went fun h => Declined r h) fun _ => Foiled r := by
  have hsend : (taking q rely).Triple (fun h _ => Allowed h ∧ Full h) (sendFrame r.from' channelFull)
      (fun _ h _ => Allowed h ∧ Full h) fun _ h _ => Allowed h ∧ ¬ Full h := by
    refine .of_after (after_sendFrame (P := fun h => Allowed h ∧ Full h)
      (E := fun h => Allowed h ∧ ¬ Full h) sendable_channelFull
      (fun b x h hs hu => ⟨hs.1.snoc fun r hr => hr, full_snoc.mpr ⟨hs.2, hu⟩⟩)
      fun b x h hs hu => ⟨hs.1.snoc fun r hr => hr, fun hf => (full_snoc.mp hf).2 hu⟩)
  refine (hsend.and (exec_attempt r.from')).conseq (fun h s hs => ⟨⟨hs.1, hs.2.full⟩, trivial⟩)
    (fun _ h s hs => ?_) fun _ h s hs => ?_
  · exact .inl ⟨hs.1.1, hs.2, hs.1.2⟩
  · exact .inl ⟨hs.1.1, hs.2, hs.1.2⟩

/-- **One report.** -/
theorem exec_consumeOne (hrely : ∀ s s', rely s s' → Unread s s') (r : ChannelReport) :
    (taking q rely).Triple Unbegun (consumeOne P r)
      (fun _ => Went fun h => Applied r h ∨ Declined r h) fun _ => Foiled r := by
  have hmore {r : ChannelReport} : ∀ h e, Applied r h ∨ Declined r h →
      Applied r (h ++ [e]) ∨ Declined r (h ++ [e]) := by
    rintro h e (⟨⟨m, hj⟩, m', hl⟩ | ⟨x, hx⟩)
    · exact .inl ⟨⟨m, List.mem_append_left _ hj⟩, m', List.mem_append_left _ hl⟩
    · exact .inr ⟨x, List.mem_append_left _ hx⟩
  have hchannel (c : ChId) : (taking q rely).Triple Unbegun (getChannel P c) (fun _ => Unbegun)
      fun _ => Foiled r :=
    (exec_channel hrely).conseq (fun _ _ h => h) (fun _ _ _ h => h) fun _ _ _ h => .inr h
  refine .bind (hchannel r.join.chFrom) fun _ => .bind (hchannel r.join.chTo) fun _ =>
    .bind (exec_unbegun (.lockPool r.join.chTo) ⟨trivial, fun r hr => hr⟩) fun _ =>
      .bind (exec_unbegun (.pingPool r.join.chTo) ⟨trivial, fun r hr => hr⟩) fun b => ?_
  cases b with
  | true =>
    refine .bind exec_joinAndLogging fun _ => .bind (exec_leaveAndLogging fun h e hs => ?_) fun _ =>
      .bind (Q := fun _ => Went fun h => Applied r h ∨ Declined r h) ?_ fun _ =>
        exec_went _ ⟨trivial, fun r hr => hr⟩ hmore
    · obtain ⟨m, hm⟩ := hs
      exact ⟨m, List.mem_append_left _ hm⟩
    · refine (exec_went (.unlockPool r.join.chTo) ⟨trivial, fun r hr => hr⟩ hmore).pre
        fun h s hs => ?_
      rcases hs with ⟨hc, hd, hf⟩ | hs
      · exact .inl ⟨hc, .inl hd, hf⟩
      · exact .inr hs
  | false =>
    refine .bind (exec_reply r) fun _ => (exec_went (.unlockPool r.join.chTo)
      ⟨trivial, fun r hr => hr⟩ hmore).pre fun h s hs => ?_
    rcases hs with ⟨hc, hd, hf⟩ | hs
    · exact .inl ⟨hc, .inr hd, hf⟩
    · exact .inr hs

/-! ## The batch -/

/-- Calls that leave the local queue alone. -/
def SparesQueue : Act → Prop
  | .popReports | .nextReport | .dropReports => False
  | _ => True

theorem sparesQueue_consumeOne (r : ChannelReport) : (consumeOne P r).All SparesQueue := by
  have hmanage {α : Type} {p : Code α} (hp : p.All Managing) : p.All SparesQueue :=
    hp.mono fun a ha => by cases a <;> first | exact trivial | exact ha.elim
  refine .bind (hmanage (managing_getChannel P _)) fun _ => .bind (hmanage (managing_getChannel P _))
    fun _ => .bind (.perform trivial) fun _ => .bind (.perform trivial) fun b => ?_
  cases b with
  | true =>
    exact .bind (hmanage (managing_hand_over _ _ _ true).1) fun _ =>
      .bind (hmanage (managing_hand_over _ _ _ true).2) fun _ => .bind (.perform trivial) fun _ =>
        .perform trivial
  | false => exact .bind (all_sendFrame (fun _ => trivial) _) fun _ => .perform trivial

theorem localQ_spared (ha : SparesQueue a) (hx : exec .lobby a r s = some s') :
    s'.lobby.localQ = s.lobby.localQ := by
  rw [exec_lobby hx]
  cases a <;> first | rfl | exact ha.elim

/-- The calls up to the next report. -/
theorem takeWhile_part {es t : Hist sig} (hes : ∀ e ∈ es, e.1 ≠ .nextReport)
    (ht : ∀ e ∈ t.head?, e.1 = .nextReport) :
    ((es ++ t).takeWhile fun e => e.1 ≠ .nextReport) = es := by
  rw [List.takeWhile_append_of_pos fun e he => decide_eq_true (hes e he)]
  cases t with
  | nil => simp
  | cons e t =>
    have he : e.1 = .nextReport := ht e rfl
    simp [he]

theorem parts_append {es t : Hist sig} (hes : ∀ e ∈ es, e.1 ≠ .nextReport) :
    parts (es ++ t) = parts t := by
  induction es with
  | nil => rfl
  | cons e es ih =>
    obtain ⟨b, x⟩ := e
    have hb : b ≠ .nextReport := hes ⟨b, x⟩ List.mem_cons_self
    have htail := ih fun e he => hes e (List.mem_cons_of_mem _ he)
    cases b <;> first | exact htail | exact absurd rfl hb

theorem parts_next {r : ChannelReport} {es t : Hist sig} (hes : ∀ e ∈ es, e.1 ≠ .nextReport)
    (ht : ∀ e ∈ t.head?, e.1 = .nextReport) :
    parts (⟨.nextReport, some r⟩ :: (es ++ t)) = (r, es) :: parts t := by
  rw [parts, takeWhile_part hes ht, parts_append hes]

theorem noneLost_cons {r : ChannelReport} {l : List ChannelReport} {es t : Hist sig}
    (hes : ∀ e ∈ es, e.1 ≠ .nextReport) (ht : ∀ e ∈ t.head?, e.1 = .nextReport) :
    NoneLost (r :: l) (⟨.nextReport, some r⟩ :: (es ++ t)) ↔
      (Applied r es ∨ Declined r es) ∧ NoneLost l t := by
  unfold NoneLost
  rw [parts_next hes ht]
  simp only [List.map_cons, List.cons.injEq, true_and, List.forall_mem_cons]
  tauto

theorem granted_cons {r : ChannelReport} {l : List ChannelReport} {es t : Hist sig}
    (hes : ∀ e ∈ es, e.1 ≠ .nextReport) (ht : ∀ e ∈ t.head?, e.1 = .nextReport) :
    Granted (r :: l) (⟨.nextReport, some r⟩ :: (es ++ t)) ↔
      Allowed es ∧ (l ≠ [] → Full es) ∧ Granted l t := by
  unfold Granted
  rw [parts_next hes ht]
  constructor
  · rintro ⟨hc, hf⟩
    refine ⟨fun e he => hc e (by simp [he]), fun hl => ?_, fun e he => hc e (by simp [he]),
      fun i r' calls hi hlen => ?_⟩
    · exact hf 0 r es rfl (by simpa using List.length_pos_iff.mpr hl)
    · exact hf (i + 1) r' calls hi (by simpa using hlen)
  · rintro ⟨hc, hf, hc', hf'⟩
    refine ⟨fun e he => ?_, fun i r' calls hi hlen => ?_⟩
    · rcases List.mem_cons.mp he with rfl | he
      · exact fun hr => hr
      · rcases List.mem_append.mp he with he | he
        · exact hc e he
        · exact hc' e he
    · cases i with
      | zero =>
        obtain ⟨rfl, rfl⟩ : r = r' ∧ es = calls := by simpa using hi
        refine hf ?_
        rintro rfl
        simp at hlen
      | succ i => exact hf' i r' calls hi (by simpa using hlen)

theorem Untouched.unhandled {r : ChannelReport} {es : Hist sig} (hq : Untouched es) :
    ¬ (Applied r es ∨ Declined r es) := by
  rintro (⟨⟨m, hm⟩, -⟩ | ⟨x, hx⟩)
  · exact hq _ hm
  · exact hq _ hx

theorem Foiled.append {r : ChannelReport} {es t : Hist sig} (ht : ∀ e ∈ t, e.1 = .dropReports)
    (hs : Foiled r es s) : Foiled r (es ++ t) s := by
  induction t generalizing es with
  | nil =>
    rw [List.append_nil]
    exact hs
  | cons e t ih =>
    obtain ⟨b, x⟩ := e
    obtain rfl : b = .dropReports := ht _ List.mem_cons_self
    rw [List.append_cons]
    refine ih (fun e he => ht e (List.mem_cons_of_mem _ he)) ?_
    rcases hs with ⟨hc, ⟨x, hx⟩, hf⟩ | ⟨hc, hq⟩
    · exact .inl ⟨hc.snoc fun r hr => hr, ⟨x, List.mem_append_left _ hx⟩, fun h => hf (full_snoc.mp h).1⟩
    · exact .inr ⟨not_allowed_snoc hc, untouched_snoc.mpr ⟨hq, trivial⟩⟩

/-- The reports behind one that was gone through decide. -/
theorem verdict_went {r : ChannelReport} {l : List ChannelReport} {es t : Hist sig}
    (hes : ∀ e ∈ es, e.1 ≠ .nextReport) (ht : ∀ e ∈ t.head?, e.1 = .nextReport)
    (hw : Went (fun h => Applied r h ∨ Declined r h) es s) (hl : NoneLost l t ↔ Granted l t) :
    NoneLost (r :: l) (⟨.nextReport, some r⟩ :: (es ++ t)) ↔
      Granted (r :: l) (⟨.nextReport, some r⟩ :: (es ++ t)) := by
  rw [noneLost_cons hes ht, granted_cons hes ht, hl]
  rcases hw with ⟨hc, hd, hf⟩ | ⟨hc, hq⟩
  · simp only [hc, hd, hf, true_and, implies_true]
  · exact iff_of_false (fun h => hq.unhandled h.1) fun h => hc h.1

/-- Behind one that raised nothing comes. -/
theorem verdict_foiled {r : ChannelReport} {l : List ChannelReport} {es : Hist sig}
    (hes : ∀ e ∈ es, e.1 ≠ .nextReport) (hs : Foiled r es s) :
    NoneLost (r :: l) (⟨.nextReport, some r⟩ :: (es ++ [])) ↔
      Granted (r :: l) (⟨.nextReport, some r⟩ :: (es ++ [])) := by
  have hlost : NoneLost l [] ↔ l = [] := by
    unfold NoneLost
    simp [parts, eq_comm]
  have hgranted : Granted l [] := ⟨by simp, by simp [parts]⟩
  rw [noneLost_cons hes (by simp), granted_cons hes (by simp), hlost]
  rcases hs with ⟨hc, hd, hf⟩ | ⟨hc, hq⟩
  · simp only [hc, hd, hf, hgranted, or_true, true_and, and_true]
    exact ⟨fun h hne => hne h, fun h => by_contra h⟩
  · exact iff_of_false (fun h => hq.unhandled h.1) fun h => hc h.1

/-- **The loop**, with the destruction of the local queue behind it or not. -/
theorem verdict_consumeLoop (hrely : ∀ s s', rely s s' → Unread s s') {t : Hist sig}
    (ht : ∀ e ∈ t, e.1 = .dropReports) :
    ∀ {l : List ChannelReport} {s s' : St} {es : Hist sig} {out : Except Err Unit},
      s.lobby.localQ = l → (taking q rely).Exec (consumeLoop P l.length) s es out s' →
      (NoneLost l (es ++ t) ↔ Granted l (es ++ t)) ∧ ∃ x es', es = ⟨.nextReport, x⟩ :: es' := by
  intro l
  induction l with
  | nil =>
    intro s s' es out hq hx
    cases hx with
    | @act _ _ x _ s₁ s₂ _ es _ hr hstep hx =>
      cases hx
      have hnone : x = none := by
        rw [(need_eq_some.mp hstep.2).1, (hrely _ _ hr).localQ, hq]
        rfl
      subst hnone
      have hparts : parts ([⟨.nextReport, none⟩] ++ t) = [] := by
        have : parts (t ++ []) = parts [] := parts_append fun e he => by rw [ht e he]; simp
        simpa [parts] using this
      refine ⟨?_, none, [], rfl⟩
      unfold NoneLost Granted
      rw [hparts]
      refine iff_of_true ⟨rfl, by simp⟩ ⟨fun e he => ?_, by simp⟩
      rcases List.mem_cons.mp he with rfl | he
      · exact fun hr => hr
      · obtain ⟨b, y⟩ := e
        obtain rfl : b = .dropReports := ht _ he
        exact fun hr => hr
  | cons r l ih =>
    intro s s' es out hq hx
    cases hx with
    | @act _ _ x _ s₁ s₂ _ es _ hr hstep hx =>
      have hnext := need_eq_some.mp hstep.2
      have hlocal : s₁.lobby.localQ = r :: l := (hrely _ _ hr).localQ.trans hq
      obtain rfl : x = some r := by rw [hnext.1, hlocal]; rfl
      have hrest : s₂.lobby.localQ = l := by
        rw [exec_lobby hstep.2]
        show s₁.lobby.localQ.tail = l
        rw [hlocal]
        rfl
      refine ⟨?_, some r, es, rfl⟩
      have hx : (taking q rely).Exec ((consumeOne P r).bind fun _ => consumeLoop P l.length) s₂ es out s' :=
        hx
      have hone {es : Hist sig} {out : Except Err Unit} {s' : St}
          (hx : (taking q rely).Exec (consumeOne P r) s₂ es out s') :
          (∀ e ∈ es, e.1 ≠ .nextReport) ∧ s'.lobby.localQ = l := by
        constructor
        · intro e he heq
          have := hx.path.all (sparesQueue_consumeOne r) e he
          rw [heq] at this
          exact this
        · have hkeep : (taking q rely).Triple (fun _ s => s.lobby.localQ = l) (consumeOne P r)
              (fun _ _ s => s.lobby.localQ = l) fun _ _ s => s.lobby.localQ = l :=
            .keep (fun _ s s' hs hr => (hrely s s' hr).localQ.trans hs) (sparesQueue_consumeOne r)
              fun a x h s s' ha hs hx => (localQ_spared ha hx.2).trans hs
          obtain ⟨hok, herr⟩ := hkeep.exec hrest hx
          cases out with
          | ok a => exact hok a rfl
          | error e => exact herr e rfl
      have hunbegun : Unbegun [] s₂ := ⟨by simp [Allowed], by simp [Untouched]⟩
      rcases Solo.Exec.of_bind hx with ⟨es₁, u, s₃, es₂, rfl, hx₁, hx₂⟩ | ⟨e, rfl, hx₁⟩
      · obtain ⟨hnot, hlocal⟩ := hone hx₁
        obtain ⟨hverdict, y, es₃, rfl⟩ := ih hlocal hx₂
        rw [List.cons_append, List.append_assoc]
        exact verdict_went hnot (by simp) (((exec_consumeOne hrely r).exec hunbegun hx₁).1 u rfl) hverdict
      · obtain ⟨hnot, -⟩ := hone hx₁
        have hstop := (((exec_consumeOne hrely r).exec hunbegun hx₁).2 e rfl).append ht
        rw [List.cons_append, ← List.append_nil (es ++ t)]
        refine verdict_foiled (fun e he => ?_) hstop
        rcases List.mem_append.mp he with he | he
        · exact hnot e he
        · rw [ht e he]
          simp

end

/-- **No report of a batch is lost** exactly if the system refuses nothing that a channel needs, and the
kernel takes every channel-full reply but perhaps the one to the last report. -/
theorem none_lost_iff {P : Params} {q : List ChannelReport} {rely : St → St → Prop} {s s' : St}
    {es : Hist sig} {out : Except Err Unit} (hrely : ∀ s s', rely s s' → Unread s s')
    (hx : (taking q rely).Exec (consumeReport P) s es out s') : NoneLost q es ↔ Granted q es := by
  cases hx with
  | @act _ _ k _ s₁ s₂ _ es _ hr hstep hx =>
    obtain ⟨hq, hstep⟩ := hstep
    have hq : s₁.lobby.reports = q := hq
    have hlocal : s₂.lobby.localQ = q := by
      rw [exec_lobby hstep]
      exact hq
    obtain rfl : k = q.length := by rw [(need_eq_some.mp hstep).1, hq]
    have hfirst : (NoneLost q es ↔ Granted q es) → (NoneLost q (⟨.popReports, q.length⟩ :: es) ↔
        Granted q (⟨.popReports, q.length⟩ :: es)) := by
      intro h
      have hallowed : Allowed (⟨.popReports, q.length⟩ :: es) ↔ Allowed es := by
        simp [Allowed, Denied]
      show NoneLost q es ↔ Allowed _ ∧ _
      rw [h, hallowed]
      rfl
    refine hfirst ?_
    have hx : (taking q rely).Exec ((consumeLoop P q.length).handle fun e => do
      call .dropReports
      throw e) s₂ es out s' := hx
    rcases Solo.Exec.of_handle hx with ⟨u, rfl, hloop⟩ | ⟨es₁, e, s₃, es₂, rfl, hx₁, hx₂⟩
    · have := (verdict_consumeLoop hrely (t := []) (by simp) hlocal hloop).1
      rwa [List.append_nil] at this
    · refine (verdict_consumeLoop hrely (fun d hd => ?_) hlocal hx₁).1
      have hdrop : (do
          call .dropReports
          throw e : Code Unit).All fun a : Act => a = .dropReports :=
        .bind (.perform rfl) fun _ => trivial
      exact hx₂.path.all hdrop d hd

instance (q : List ChannelReport) (a : Act) (s : St) : Decidable (Takes q a s) := by
  apply a.casesOn (motive := fun a => Decidable (Takes q a s)) <;> intros <;> unfold Takes <;>
    infer_instance

theorem Unread.refl (s : St) : Unread s s := ⟨rfl, fun _ => rfl⟩

/-- The users behind descriptors 5 and 7 want to go from channel 1 to channel 2. -/
def twoReports : List ChannelReport := [⟨5, 0, ⟨1, 2, 1⟩, some 0⟩, ⟨7, 1, ⟨1, 2, 1⟩, some 1⟩]

/-- They are in channel 1; channel 2 takes `room` clients and has one. -/
def torn (room : Int32) : St :=
  let s := ((init sample).onBase (.chan 1) fun b => { b with clients := {5, 7} }).onBase (.chan 2)
    fun b => { b with clients := {9}, maxFd := room }
  { s.onLobby fun l => { l with ids := [1, 2], reports := twoReports } with
    names := fun n => if n = 5 ∨ n = 7 then some (ascii "ann") else none }

theorem none_lost_room : ∃ es out s', (taking twoReports Unread).Exec (consumeReport sample) (torn 9) es
    out s' ∧ NoneLost twoReports es := by
  obtain ⟨es, out, s', hx, hallowed, hfull⟩ : ∃ es out s', (taking twoReports Unread).Exec
      (consumeReport sample) (torn 9) es out s' ∧ (∀ e ∈ es, ¬ Denied e) ∧
        ∀ p ∈ parts es, ∀ e ∈ p.2, ¬ Unsent channelFull e :=
    exists_restricted .refl (choose .lobby) {} (by decide +kernel)
  exact ⟨es, out, s', hx, (none_lost_iff (fun _ _ h => h) hx).mpr ⟨hallowed, fun i r calls hi _ =>
    hfull _ (List.mem_of_getElem? hi)⟩⟩

/-- The kernel takes nothing for a peer that reset its connection. -/
def refusing : (a : Act) → St → Input → Option (Res a × Input)
  | .send _ _, _, i => some (none, i)
  | a, s, i => choose .lobby a s i

/-- The reply to the first user fails, and the second is never heard. -/
theorem second_report_lost : ∃ es out s', (taking twoReports Unread).Exec (consumeReport sample) (torn 1)
    es out s' ∧ ¬ NoneLost twoReports es := by
  obtain ⟨es, out, s', hx, hlost⟩ : ∃ es out s', (taking twoReports Unread).Exec
      (consumeReport sample) (torn 1) es out s' ∧ (parts es).map Prod.fst ≠ twoReports :=
    exists_restricted .refl refusing {} (by decide +kernel)
  exact ⟨es, out, s', hx, fun h => hlost h.1⟩

end ChatChannel
