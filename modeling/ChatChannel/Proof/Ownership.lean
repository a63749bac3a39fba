import ChatChannel.Model.Script
import ChatChannel.Proof.Alphabet
import ChatChannel.Proof.Fields
import ChatChannel.Proof.Reply

/-!
# Who owns a join request

A channel allocates a `JoinReqDto` and hands it to the lobby in a report; whoever takes the report out of
the queue has to delete it. `Account` is the balance of one `consume_report`: every object that is not
deleted yet is in the report at hand, in a report still to come, or lost. An object is lost where the
loop goes on without deleting it, because the target is full, and where an exception leaves the loop
(`owned_iff`).
-/

set_option autoImplicit false

namespace ChatChannel

open Conc

/-! ## Objects and their owners -/

/-- The objects that the reports of a queue carry. -/
def carried (q : List ChannelReport) : List Nat := q.map ChannelReport.ptr

/-- The objects that were deleted. -/
def released (h : Hist sig) : List Nat :=
  h.filterMap fun e =>
    match e with
    | ⟨.deleteJoinReq p, _⟩ => some p
    | _ => none

/-- The calls after which `consume_report` does not delete an object: the target of a report has no room,
or an exception destroys the local queue. -/
def Spills : Call sig → Prop
  | ⟨.pingPool _, r⟩ => r = false
  | ⟨.dropReports, _⟩ => True
  | _ => False

def Tidy (h : Hist sig) : Prop := ∀ e ∈ h, ¬ Spills e

/-- Neither the objects nor the queues change. -/
structure Unrelated (s s' : St) : Prop where
  joinReqs : s'.joinReqs = s.joinReqs
  nextPtr : s'.nextPtr = s.nextPtr
  reports : s'.lobby.reports = s.lobby.reports
  localQ : s'.lobby.localQ = s.lobby.localQ

/-- Channel `c` handles a request. -/
def Submits (P : Params) (c : ChId) (s s' : St) : Prop :=
  ∃ n target root es out, (lone (.chan c) Eq).Exec (channelOnReq P.js c n target root) s es out s'

/-- Channels handle requests, and what is neither a request nor a report goes on. -/
def Elsewhere (P : Params) : St → St → Prop :=
  Relation.ReflTransGen fun s s' => (∃ c, Submits P c s s') ∨ Unrelated s s'

/-- A run of requests and ticks. `es` are the calls its `consume_report`s made. -/
inductive Life (P : Params) : Hist sig → St → Prop
  | start : Life P [] (init P)
  | elsewhere {es : Hist sig} {s s' : St} : Life P es s → Elsewhere P s s' → Life P es s'
  | consume {es es' : Hist sig} {s s' : St} {out : Except Err Unit} : Life P es s →
      (lone .lobby (Elsewhere P)).Exec (consumeReport P) s es' out s' → Life P (es ++ es') s'

/-- While the server is destroyed, the workers of its channels go on until they are joined, and none is
started. -/
def Outgoing (P : Params) : St → St → Prop :=
  Relation.ReflTransGen fun s s' =>
    (∃ c ∈ s.lobby.ids, (s.chan c).worker = .running ∧ Submits P c s s') ∨
      (Unrelated s s' ∧ s'.lobby.ids = s.lobby.ids ∧
        ∀ c, (s'.chan c).worker = .running → (s.chan c).worker = .running)

/-- Every object that was not deleted is in one report of the queue and none was deleted twice; and when
the server is destroyed now, every object is deleted, once. -/
structure Owned (P : Params) (es : Hist sig) (s : St) : Prop where
  owners : s.joinReqs.Perm (carried s.lobby.reports)
  each : (carried s.lobby.reports).Nodup
  once : (released es).Nodup
  ends : ∀ es' out s', (lone .lobby (Outgoing P)).Exec destroyChannelServer s es' out s' →
    s'.joinReqs = [] ∧ (released (es ++ es')).Nodup

section

variable {P : Params} {c : ChId} {h : Hist sig} {s s' s₁ : St} {a : Act} {r : Res a} {t : Srv}

/-! ## Calls that have nothing to do with it -/

/-- Every call but those on the objects and the queues. -/
def Tokenless : Act → Prop
  | .newJoinReq | .deleteJoinReq _ | .report _ _ _ | .popReports | .nextReport | .dropReports => False
  | _ => True

theorem unrelated_exec (ha : Tokenless a) (hx : exec t a r s = some s') : Unrelated s s' := by
  have hlobby := exec_lobby hx
  refine ⟨?_, ?_, ?_, ?_⟩
  · rw [exec_joinReqs hx]
    cases a <;> first | rfl | exact ha.elim
  · rw [exec_nextPtr hx]
    cases a <;> first | rfl | exact ha.elim
  · rw [hlobby]
    cases a <;> first | rfl | exact ha.elim
  · rw [hlobby]
    cases a <;> first | rfl | exact ha.elim

theorem Unrelated.refl (s : St) : Unrelated s s := ⟨rfl, rfl, rfl, rfl⟩

theorem Unrelated.trans (hs : Unrelated s s₁) (hs' : Unrelated s₁ s') : Unrelated s s' :=
  ⟨hs'.joinReqs.trans hs.joinReqs, hs'.nextPtr.trans hs.nextPtr, hs'.reports.trans hs.reports,
    hs'.localQ.trans hs.localQ⟩

@[simp] theorem carried_append (q q' : List ChannelReport) :
    carried (q ++ q') = carried q ++ carried q' := List.map_append

@[simp] theorem released_append (h h' : Hist sig) : released (h ++ h') = released h ++ released h' :=
  List.filterMap_append

/-- Only a deletion releases. -/
theorem released_of_ne (ha : ∀ p, a ≠ .deleteJoinReq p) : released [⟨a, r⟩] = [] := by
  cases a
  case deleteJoinReq p => exact absurd rfl (ha p)
  all_goals rfl

theorem tidy_snoc {e : Call sig} : Tidy (h ++ [e]) ↔ Tidy h ∧ ¬ Spills e := by
  unfold Tidy
  rw [List.forall_mem_append, List.forall_mem_singleton]

/-! ## What a request adds -/

/-- Objects were allocated, and each is in one new report. -/
def Adds (s s' : St) : Prop :=
  ∃ q, s'.lobby.reports = s.lobby.reports ++ q ∧ s'.joinReqs = s.joinReqs ++ carried q ∧
    carried q = List.range' s.nextPtr q.length ∧ s'.nextPtr = s.nextPtr + q.length ∧
    s'.lobby.localQ = s.lobby.localQ

theorem Unrelated.adds (hs : Unrelated s s') : Adds s s' :=
  ⟨[], by rw [List.append_nil]; exact hs.reports, by rw [hs.joinReqs]; exact (List.append_nil _).symm, rfl,
    hs.nextPtr, hs.localQ⟩

theorem Adds.trans (hs : Adds s s₁) (hs' : Adds s₁ s') : Adds s s' := by
  obtain ⟨q, hreports, hreqs, hptrs, hnext, hlocal⟩ := hs
  obtain ⟨q', hreports', hreqs', hptrs', hnext', hlocal'⟩ := hs'
  refine ⟨q ++ q', ?_, ?_, ?_, ?_, hlocal'.trans hlocal⟩
  · rw [hreports', hreports, List.append_assoc]
  · rw [hreqs', hreqs, carried_append, List.append_assoc]
  · rw [carried_append, hptrs, hptrs', hnext, List.length_append]
    exact List.range'_append_1
  · rw [hnext', hnext, List.length_append, Nat.add_assoc]

/-- A switch to another channel allocates an object and reports it; nothing else does either. -/
theorem adds_submits (hs : Submits P c s s') : Adds s s' := by
  obtain ⟨n, target, root, es, out, hx⟩ := hs
  have hstable (Q : Hist sig → St → Prop) : (lone (.chan c) Eq).Stable Q := by
    intro h s₁ s₂ hQ heq
    cases heq
    exact hQ
  have hkeep {p : Code Unit} (hp : p.All Tokenless) : (lone (.chan c) Eq).Triple
      (fun _ s₁ => Unrelated s s₁) p (fun _ _ s₁ => Adds s s₁) fun _ _ s₁ => Adds s s₁ :=
    (Solo.Triple.keep (hstable _) hp fun a r _ s₁ s₂ ha hu hx => hu.trans (unrelated_exec ha hx)).conseq
      (fun _ _ h => h) (fun _ _ _ h => h.adds) fun _ _ _ h => h.adds
  have hreq : (lone (.chan c) Eq).Triple (fun _ s₁ => Unrelated s s₁)
      (channelOnReq P.js c n target root) (fun _ _ s₁ => Adds s s₁) fun _ _ s₁ => Adds s s₁ := by
    unfold channelOnReq
    split
    · refine hkeep ?_
      unfold chatOnReq
      split
      · cases unpackMessage P.js root with
        | none => trivial
        | some q =>
          refine .bind (.perform trivial) fun o => ?_
          cases o <;> first | trivial | exact .perform trivial
      · trivial
    · split
      · cases unpackChannelJoin P.js root with
        | none => exact hkeep trivial
        | some q =>
          obtain ⟨chTo, timestamp⟩ := q
          dsimp only
          split
          · exact hkeep trivial
          · refine .bind (Q := fun p _ s₁ => p = s.nextPtr ∧ s₁.joinReqs = s.joinReqs ++ [p] ∧
              s₁.nextPtr = s.nextPtr + 1 ∧ s₁.lobby.reports = s.lobby.reports ∧
              s₁.lobby.localQ = s.lobby.localQ) (.perform (hstable _) fun p _ s₁ s₂ hu hx => ?_)
                fun p => .perform (hstable _) fun _ _ s₁ s₂ hp hx => ?_
            · have hlobby := exec_lobby hx
              obtain ⟨hp, -⟩ := need_eq_some.mp hx
              have hptr : p = s.nextPtr := hp.trans hu.nextPtr
              refine ⟨hptr, ?_, ?_, ?_, ?_⟩
              · rw [exec_joinReqs hx, After.joinReqs, hu.joinReqs, hu.nextPtr, hptr]
              · rw [exec_nextPtr hx, After.nextPtr, hu.nextPtr]
              · rw [hlobby]
                exact hu.reports
              · rw [hlobby]
                exact hu.localQ
            · obtain ⟨hptr, hreqs, hnext, hreports, hlocal⟩ := hp
              have hlobby := exec_lobby hx
              refine ⟨[⟨n, p, ⟨c, chTo, timestamp⟩, (s₁.base (.chan c)).aux.source.map Prod.snd⟩],
                ?_, ?_, ?_, ?_, ?_⟩
              · rw [hlobby, ← hreports]
                rfl
              · rw [exec_joinReqs hx]
                exact hreqs
              · rw [← hptr]
                rfl
              · rw [exec_nextPtr hx]
                exact hnext
              · rw [hlobby]
                exact hlocal
      · exact hkeep trivial
  obtain ⟨hok, herr⟩ := hreq.exec (Unrelated.refl s) hx
  cases out with
  | ok a => exact hok a rfl
  | error e => exact herr e rfl

theorem Elsewhere.adds (hs : Elsewhere P s s') : Adds s s' := by
  induction hs with
  | refl => exact (Unrelated.refl s).adds
  | tail _ hstep ih =>
    rcases hstep with ⟨c, hsub⟩ | hu
    · exact ih.trans (adds_submits hsub)
    · exact ih.trans hu.adds

/-! ## The account -/

/-- Where the objects are that are not deleted yet, while `consume_report` has `k` reports before it:
`spilt` are lost, `cur` is in the report at hand. -/
structure Account (spilt : List Nat) (cur : Option Nat) (k : Nat) (h : Hist sig) (s : St) : Prop where
  owners : s.joinReqs.Perm
    (spilt ++ (cur.toList ++ (carried s.lobby.localQ ++ carried s.lobby.reports)))
  tidy : spilt = [] ↔ Tidy h
  once : (released h ++ s.joinReqs).Nodup
  below : ∀ p ∈ released h ++ s.joinReqs, p < s.nextPtr
  local' : s.lobby.localQ.length = k

/-- The same, whatever was lost. -/
def Balanced (cur : Option Nat) (k : Nat) (h : Hist sig) (s : St) : Prop :=
  ∃ spilt, Account spilt cur k h s

variable {spilt : List Nat} {cur : Option Nat} {k : Nat}

/-- New objects are in new reports. -/
theorem Account.adds (hs : Account spilt cur k h s) (hadd : Adds s s') :
    Account spilt cur k h s' := by
  obtain ⟨q, hreports, hreqs, hptrs, hnext, hlocal⟩ := hadd
  have hnew : ∀ p ∈ carried q, s.nextPtr ≤ p ∧ p < s'.nextPtr := by
    intro p hp
    rw [hptrs, List.mem_range'_1] at hp
    rw [hnext]
    exact hp
  refine ⟨?_, hs.tidy, ?_, ?_, ?_⟩
  · rw [hreqs, hlocal, hreports, carried_append]
    have := hs.owners.append_right (carried q)
    simpa only [List.append_assoc] using this
  · rw [hreqs, ← List.append_assoc]
    refine hs.once.append ?_ fun p hold hp => ?_
    · rw [hptrs]
      exact List.nodup_range'
    · exact absurd (hs.below p hold) (Nat.not_lt.mpr (hnew p hp).1)
  · intro p hp
    rw [hreqs, ← List.append_assoc] at hp
    rcases List.mem_append.mp hp with hp | hp
    · exact Nat.lt_of_lt_of_le (hs.below p hp) (hnext ▸ Nat.le_add_right _ _)
    · exact (hnew p hp).2
  · rw [hlocal]
    exact hs.local'

theorem Account.unrelated (hs : Account spilt cur k h s) (hu : Unrelated s s') :
    Account spilt cur k h s' :=
  hs.adds hu.adds

/-- A call that loses nothing and releases nothing is not on the account. -/
theorem Account.snoc (hs : Account spilt cur k h s) (hr : ¬ Spills ⟨a, r⟩)
    (ha : ∀ p, a ≠ .deleteJoinReq p) : Account spilt cur k (h ++ [⟨a, r⟩]) s := by
  have hrel : released (h ++ [⟨a, r⟩]) = released h := by
    rw [released_append, released_of_ne ha, List.append_nil]
  exact ⟨hs.owners, hs.tidy.trans (tidy_snoc.trans (and_iff_left hr)).symm, hrel ▸ hs.once,
    hrel ▸ hs.below, hs.local'⟩

/-- The target of the report at hand has no room: its object is lost. -/
theorem Account.refused {p : Nat} (hs : Account spilt (some p) k h s) (hr : Spills ⟨a, r⟩)
    (ha : ∀ p, a ≠ .deleteJoinReq p) : Account (spilt ++ [p]) none k (h ++ [⟨a, r⟩]) s := by
  have hrel : released (h ++ [⟨a, r⟩]) = released h := by
    rw [released_append, released_of_ne ha, List.append_nil]
  refine ⟨?_, ?_, hrel ▸ hs.once, hrel ▸ hs.below, hs.local'⟩
  · rw [List.append_assoc]
    exact hs.owners
  · constructor
    · intro hnil
      simp at hnil
    · intro htidy
      exact absurd hr (tidy_snoc.mp htidy).2

/-- The object of the report at hand is deleted. -/
theorem Account.release {p : Nat} (hs : Account spilt (some p) k h s)
    {r : Res (.deleteJoinReq p)} (hx : exec t (.deleteJoinReq p) r s = some s') :
    Account spilt none k (h ++ [⟨.deleteJoinReq p, r⟩]) s' := by
  have hreqs : s'.joinReqs = s.joinReqs.erase p := exec_joinReqs hx
  have hmem : p ∈ s.joinReqs := hs.owners.mem_iff.mpr (by simp)
  have hsplit : (p :: s'.joinReqs).Perm s.joinReqs := hreqs ▸ (List.perm_cons_erase hmem).symm
  have hall : (released (h ++ [⟨.deleteJoinReq p, r⟩]) ++ s'.joinReqs).Perm
      (released h ++ s.joinReqs) := by
    rw [released_append, List.append_assoc]
    exact hsplit.append_left _
  have hlobby := exec_lobby hx
  refine ⟨?_, hs.tidy.trans (tidy_snoc.trans (and_iff_left id)).symm,
    hall.nodup_iff.mpr hs.once, ?_, ?_⟩
  · rw [hlobby]
    have := hsplit.trans (hs.owners.trans List.perm_middle)
    exact this.cons_inv
  · intro q hq
    rw [exec_nextPtr hx]
    exact hs.below q (hall.mem_iff.mp hq)
  · rw [hlobby]
    exact hs.local'

/-- The queue becomes the local queue. -/
theorem Account.pop (hs : Account spilt none 0 h s) {n : Nat} (hx : exec t .popReports n s = some s') :
    Account spilt none n (h ++ [⟨.popReports, n⟩]) s' := by
  have hlobby := exec_lobby hx
  obtain ⟨hn, -⟩ := need_eq_some.mp hx
  have hnil : s.lobby.localQ = [] := List.length_eq_zero_iff.mp hs.local'
  have hsnoc := hs.snoc (a := .popReports) (r := n) (fun hf => hf) fun p hp => by cases hp
  refine ⟨?_, hsnoc.tidy, ?_, ?_, ?_⟩
  · rw [exec_joinReqs hx, hlobby]
    have := hs.owners
    rw [hnil] at this
    simpa [After.joinReqs, After.lobby, carried] using this
  · rw [exec_joinReqs hx]
    exact hsnoc.once
  · rw [exec_joinReqs hx, exec_nextPtr hx]
    exact hsnoc.below
  · rw [hlobby]
    exact hn.symm

/-- The next report is taken out of the local queue. -/
theorem Account.next (hs : Account spilt none k h s) {o : Option ChannelReport}
    (hx : exec t .nextReport o s = some s') :
    Account spilt (o.map ChannelReport.ptr) (k - 1) (h ++ [⟨.nextReport, o⟩]) s' ∧
      (o = none ↔ k = 0) := by
  have hlobby := exec_lobby hx
  obtain ⟨ho, -⟩ := need_eq_some.mp hx
  have hsnoc := hs.snoc (a := .nextReport) (r := o) (fun hf => hf) fun p hp => by cases hp
  refine ⟨⟨?_, hsnoc.tidy, ?_, ?_, ?_⟩, ?_⟩
  · rw [exec_joinReqs hx, hlobby, ho]
    have := hs.owners
    cases hq : s.lobby.localQ with
    | nil => simpa [After.joinReqs, After.lobby, hq] using this
    | cons x q => simpa [After.joinReqs, After.lobby, hq, carried] using this
  · rw [exec_joinReqs hx]
    exact hsnoc.once
  · rw [exec_joinReqs hx, exec_nextPtr hx]
    exact hsnoc.below
  · rw [hlobby, ← hs.local']
    exact List.length_tail
  · rw [ho, ← hs.local']
    cases s.lobby.localQ <;> simp

/-- The local queue is destroyed: the objects of its reports are lost. -/
theorem Account.drop (hs : Account spilt cur k h s) (hcur : cur = none → spilt ≠ [])
    {r : Res .dropReports} (hx : exec t .dropReports r s = some s') :
    Balanced none 0 (h ++ [⟨.dropReports, r⟩]) s' := by
  have hlobby := exec_lobby hx
  have hrel : released (h ++ [⟨.dropReports, r⟩]) = released h := by
    rw [released_append, released_of_ne (by simp), List.append_nil]
  refine ⟨spilt ++ (cur.toList ++ carried s.lobby.localQ), ?_, ?_, ?_, ?_, ?_⟩
  · rw [exec_joinReqs hx, hlobby]
    have := hs.owners
    simpa [After.lobby, After.joinReqs, carried] using this
  · constructor
    · intro hnil
      obtain ⟨hspilt, hrest⟩ := List.append_eq_nil_iff.mp hnil
      cases cur with
      | none => exact absurd hspilt (hcur rfl)
      | some p => cases hrest
    · intro htidy
      exact absurd trivial (tidy_snoc.mp htidy).2
  · rw [exec_joinReqs hx, hrel]
    exact hs.once
  · rw [exec_joinReqs hx, exec_nextPtr hx, hrel]
    exact hs.below
  · rw [hlobby]
    rfl

/-! ## One `consume_report` -/

/-- Where an exception leaves the loop, an object is at hand, or one was lost before. -/
def Abandoned (h : Hist sig) (s : St) : Prop :=
  ∃ spilt cur k, Account spilt cur k h s ∧ (cur = none → spilt ≠ [])

/-- Calls that neither take, lose nor release a report. -/
def Harmless (a : Act) : Prop := Tokenless a ∧ ∀ c, a ≠ .pingPool c

theorem Harmless.not_spills (ha : Harmless a) : ¬ Spills ⟨a, r⟩ := by
  cases a
  case pingPool c => exact absurd rfl (ha.2 c)
  case dropReports => exact ha.1.elim
  all_goals exact id

theorem stable_account : (lone .lobby (Elsewhere P)).Stable (Account spilt cur k) :=
  fun _ _ _ hs hr => hs.adds hr.adds

theorem Account.harmless (hs : Account spilt cur k h s) (ha : Harmless a)
    (hx : exec t a r s = some s') : Account spilt cur k (h ++ [⟨a, r⟩]) s' := by
  refine (hs.unrelated (unrelated_exec ha.1 hx)).snoc ha.not_spills ?_
  rintro p rfl
  exact ha.1

theorem account_keep {p : Code Unit} (hp : p.All Harmless) :
    (lone .lobby (Elsewhere P)).Triple (Account spilt cur k) p (fun _ => Account spilt cur k)
      fun _ => Account spilt cur k :=
  .keep stable_account hp fun _ _ _ _ _ ha hs hx => hs.harmless ha hx

theorem harmless_of_managing {α : Type} {p : Code α} (hp : p.All Managing) : p.All Harmless :=
  hp.mono fun a ha => by
    cases a <;> first | exact ha.elim | exact ⟨trivial, fun _ hc => by cases hc⟩

/-- A report is applied and its object deleted, or its target is full and the object is lost. -/
theorem account_consumeOne (x : ChannelReport) : (lone .lobby (Elsewhere P)).Triple
    (Account spilt (some x.ptr) k) (consumeOne P x) (fun _ => Balanced none k)
      fun _ => Abandoned := by
  have hheld (h : Hist sig) (s : St) (hs : Account spilt (some x.ptr) k h s) : Abandoned h s :=
    ⟨spilt, _, k, hs, fun hc => by cases hc⟩
  have hkeep {p : Code Unit} (hp : p.All Managing) : (lone .lobby (Elsewhere P)).Triple
      (Account spilt (some x.ptr) k) p (fun _ => Account spilt (some x.ptr) k)
        fun _ => Abandoned :=
    (account_keep (harmless_of_managing hp)).conseq (fun _ _ h => h) (fun _ _ _ h => h)
      fun _ h s hs => hheld h s hs
  refine .bind (hkeep (managing_getChannel P _)) fun _ => .bind (hkeep (managing_getChannel P _))
    fun _ => .bind (Q := fun _ => Account spilt (some x.ptr) k) (.perform stable_account
      fun r h s s' hs hx => hs.harmless ⟨trivial, fun _ hc => by cases hc⟩ hx) fun _ =>
        .bind (Q := fun b => if b then Account spilt (some x.ptr) k
          else Account (spilt ++ [x.ptr]) none k) (.perform stable_account fun b h s s' hs hx => ?_)
            fun b => ?_
  · have hs' := hs.unrelated (unrelated_exec (a := .pingPool _) trivial hx)
    cases b with
    | true => exact hs'.snoc (fun hf => Bool.noConfusion hf) fun p hp => by cases hp
    | false => exact hs'.refused rfl fun p hp => by cases hp
  · cases b with
    | true =>
      refine .bind (hkeep (managing_hand_over _ _ _ _).1) fun _ =>
        .bind (hkeep (managing_hand_over _ _ _ true).2) fun _ =>
          .bind (Q := fun _ => Account spilt (some x.ptr) k) (.perform stable_account
            fun r h s s' hs hx => hs.harmless ⟨trivial, fun _ hc => by cases hc⟩ hx) fun _ =>
              .perform stable_account fun r h s s' hs hx => ⟨spilt, hs.release hx⟩
    | false =>
      -- the loop goes on to the next report
      refine .bind (Q := fun _ => Account (spilt ++ [x.ptr]) none k) ((account_keep (all_sendFrame
        (fun b => ⟨trivial, fun _ hc => by cases hc⟩) channelFull)).conseq (fun _ _ h => h)
          (fun _ _ _ h => h) fun _ h s hs => ⟨_, _, _, hs, fun _ hnil => by simp at hnil⟩) fun _ => ?_
      exact .perform stable_account fun r h s s' hs hx =>
        ⟨_, hs.harmless ⟨trivial, fun _ hc => by cases hc⟩ hx⟩

theorem account_consumeLoop : ∀ (k : Nat) (spilt : List Nat), (lone .lobby (Elsewhere P)).Triple
    (Account spilt none k) (consumeLoop P k) (fun _ => Balanced none 0) fun _ => Abandoned
  | 0, spilt => by
    refine .bind (Q := fun _ => Balanced none 0) (.perform stable_account fun o h s s' hs hx => ?_)
      fun _ => .ret fun _ _ h => h
    obtain ⟨hnext, hnone⟩ := hs.next hx
    rw [hnone.mpr rfl] at hnext ⊢
    exact ⟨spilt, hnext⟩
  | k + 1, spilt => by
    refine .bind (Q := fun o h s => o ≠ none ∧ Account spilt (o.map ChannelReport.ptr) k h s)
      (.perform stable_account fun o h s s' hs hx => ?_) fun o => .pure fun ho => ?_
    · obtain ⟨hnext, hnone⟩ := hs.next hx
      exact ⟨fun ho => absurd (hnone.mp ho) (Nat.succ_ne_zero k), hnext⟩
    · cases o with
      | none => exact absurd rfl ho
      | some x =>
        exact .bind (account_consumeOne x) fun _ h s ⟨spilt, hs⟩ => account_consumeLoop k spilt h s hs

/-- What `consume_report` leaves is balanced however it ends. -/
theorem account_consumeReport : (lone .lobby (Elsewhere P)).Triple (Account spilt none 0)
    (consumeReport P) (fun _ => Balanced none 0) fun _ => Balanced none 0 := by
  refine .bind (Q := fun k => Account spilt none k) (.perform stable_account fun k h s s' hs hx =>
    hs.pop hx) fun k => .handle (account_consumeLoop k spilt) fun e => ?_
  rintro h s ⟨spilt, cur, k, hs, hcur⟩
  exact Solo.Triple.bind (Q := fun _ => Balanced none 0) (.perform stable_account
    fun r h s s' hs hx => hs.drop hcur hx) (fun _ => .raise fun _ _ h => h) h s hs

theorem balanced_life (hlife : Life P h s) : Balanced none 0 h s := by
  induction hlife with
  | start =>
    exact ⟨[], .nil, ⟨fun _ _ he => absurd he List.not_mem_nil, fun _ => rfl⟩, .nil,
      fun p hp => absurd hp List.not_mem_nil, rfl⟩
  | elsewhere _ hr ih =>
    obtain ⟨spilt, hs⟩ := ih
    exact ⟨spilt, hs.adds hr.adds⟩
  | consume _ hx ih =>
    obtain ⟨spilt, hs⟩ := ih
    obtain ⟨hok, herr⟩ := Solo.leads_exec hx (account_consumeReport _ _ hs)
    rename_i out _
    cases out with
    | ok a => exact hok a rfl
    | error e => exact herr e rfl

/-! ## Ticks -/

theorem tokenless_onRecv (n : Fd) : (onRecv P .lobby n).All Tokenless := by
  refine .handle (.bind ((fromWire_recvFrame P n).mono fun a ha => ?_) fun fs =>
    .bind (.forEach (fun f => ?_) fs) fun _ => .perform trivial) fun e =>
      .bind (.perform trivial) fun _ => .perform trivial
  · cases a <;> first | exact trivial | exact ha.elim
  · refine .bind (.perform trivial) fun _ => ?_
    cases requestOf P.js f with
    | none => trivial
    | some q =>
      exact (placing_lobbyOnReq P n q.1 q.2).mono fun a ha => by
        cases a <;> first | exact trivial | exact ha.elim

theorem tokenless_handleEvents (ev : PollEv) : (handleEvents P .lobby ev).All Tokenless := by
  refine .bind (.perform trivial) fun b => ?_
  cases b with
  | true =>
    refine .bind (.perform trivial) fun o => ?_
    cases o with
    | none => trivial
    | some n =>
      refine .handle (.bind (.bind (.perform trivial) fun r => ?_) fun _ => .bind (.perform trivial)
        fun _ => .bind (.perform trivial) fun _ => .perform trivial) fun e => ?_
      · cases r <;> trivial
      · split
        · exact .bind (all_sendFrame (fun _ => trivial) serverFull) fun _ => .perform trivial
        · exact .perform trivial
  | false =>
    simp only [Bool.false_eq_true, if_false]
    split
    · exact .perform trivial
    · split
      · exact tokenless_onRecv _
      · trivial

theorem tokenless_housekeeping : housekeeping.All Tokenless := by
  have hlobby : checkLobby.All Tokenless := by
    refine .bind (.perform trivial) fun now => .bind (.perform trivial) fun acts =>
      .bind (.forEach (fun p => ?_) acts) fun _ => .perform trivial
    dsimp only
    split
    · trivial
    · exact .perform trivial
  have hdelete (c : ChId) : (deleteChannel c).All Tokenless := by
    have hbase : (destroyServerBase c).All Tokenless :=
      (founding_destroyServerBase c).mono fun a ha => by
        cases a <;> first | exact trivial | exact ha.elim
    refine .bind (.perform trivial) fun _ => .bind (.perform trivial) fun b => ?_
    cases b with
    | false => exact hbase
    | true => exact .bind (.perform trivial) fun _ => hbase
  have hchannels : checkChannels.All Tokenless := by
    refine .bind (.perform trivial) fun now => .bind (.perform trivial) fun ids =>
      .forEach (fun c => .bind (.perform trivial) fun b => ?_) ids
    cases b with
    | false => trivial
    | true =>
      refine .bind (.perform trivial) fun e => ?_
      split
      · exact .bind (hdelete c) fun _ => .perform trivial
      · trivial
  refine .bind (.perform trivial) fun now => .bind (.perform trivial) fun last => ?_
  split
  · trivial
  · exact .bind (.perform trivial) fun _ => .bind hlobby fun _ => hchannels

theorem tokenless_chatTask : (chatTask P.js).All Tokenless := by
  refine .bind (.bind (.perform trivial) fun q => .forEach (fun _ => .perform trivial) q) fun _ =>
    .bind (.perform trivial) fun cur => ?_
  split
  · trivial
  · exact .bind (.perform trivial) fun l => .bind (all_broadcast _ l fun _ _ _ => trivial) fun failed =>
      .forEach (fun _ => .perform trivial) failed

/-- Of the tasks only `consume_report` is about reports. -/
theorem tokenless_runTask {x : Task} (hx : x ≠ .consumeReport) : (runTask P .lobby x).All Tokenless := by
  cases x with
  | consumeReport => exact absurd rfl hx
  | clearDeletion => exact .perform trivial
  | clearCurMsgs => exact .perform trivial
  | polling =>
    refine .bind (.perform trivial) fun o => ?_
    cases o <;> trivial
  | handleEvents => exact .bind (.perform trivial) fun evs => .forEach tokenless_handleEvents evs
  | resolveDeletion =>
    have hdelete (n : Fd) : (tryCatch (do trackerDelete n; pure true) fun _ => pure false :
        Code Bool).All Tokenless :=
      .handle (.bind (all_trackerDelete trivial) fun _ => trivial) fun _ => trivial
    refine .bind (.perform trivial) fun l => .bind (.forEach (fun n => .bind (.perform trivial) fun _ =>
      .bind (hdelete n) fun b => ?_) l) fun _ => .perform trivial
    cases b with
    | false => trivial
    | true => exact .bind (.perform trivial) fun _ => .bind (.perform trivial) fun _ => .perform trivial
  | chat => exact tokenless_chatTask
  | housekeeping => exact tokenless_housekeeping
  | resolvePool =>
    refine .bind (.perform trivial) fun _ => .bind (.handle ((poolCall_resolvePoolBody _).mono
      fun a ha => ?_) fun e => .bind (.perform trivial) fun _ => trivial) fun _ => .perform trivial
    cases a <;> first | exact trivial | exact ha.elim

/-- A program whose executions are stretches of a run. -/
def Lives (P : Params) {α : Type} (p : Code α) : Prop :=
  ∀ es s es' out s', Life P es s → (lone .lobby (Elsewhere P)).Exec p s es' out s' →
    ∃ es'', es''.Sublist es' ∧ Life P (es ++ es'') s'

theorem lives_of_tokenless {α : Type} {p : Code α} (hp : p.All Tokenless) : Lives P p := by
  intro es s es' out s' hlife hx
  refine ⟨[], List.nil_sublist _, ?_⟩
  rw [List.append_nil]
  refine .elsewhere hlife ?_
  clear hlife
  induction hx with
  | ret => exact .refl
  | raise => exact .refl
  | act hr hs _ ih => exact (hr.tail (.inr (unrelated_exec hp.1 hs))).trans (ih (hp.2 _))

theorem Lives.bind {α β : Type} {p : Code α} {f : α → Code β} (hp : Lives P p)
    (hf : ∀ a, Lives P (f a)) : Lives P (p.bind f) := by
  intro es s es' out s' hlife hx
  rcases hx.of_bind with ⟨es₁, a, s₁, es₂, rfl, hx₁, hx₂⟩ | ⟨e, rfl, hx₁⟩
  · obtain ⟨l₁, hl₁, hlife₁⟩ := hp _ _ _ _ _ hlife hx₁
    obtain ⟨l₂, hl₂, hlife₂⟩ := hf a _ _ _ _ _ hlife₁ hx₂
    exact ⟨l₁ ++ l₂, hl₁.append hl₂, by rwa [← List.append_assoc]⟩
  · exact hp _ _ _ _ _ hlife hx₁

theorem Lives.handle {α : Type} {p : Code α} {k : Err → Code α} (hp : Lives P p)
    (hk : ∀ e, Lives P (k e)) : Lives P (p.handle k) := by
  intro es s es' out s' hlife hx
  rcases hx.of_handle with ⟨a, rfl, hx₁⟩ | ⟨es₁, e, s₁, es₂, rfl, hx₁, hx₂⟩
  · exact hp _ _ _ _ _ hlife hx₁
  · obtain ⟨l₁, hl₁, hlife₁⟩ := hp _ _ _ _ _ hlife hx₁
    obtain ⟨l₂, hl₂, hlife₂⟩ := hk e _ _ _ _ _ hlife₁ hx₂
    exact ⟨l₁ ++ l₂, hl₁.append hl₂, by rwa [← List.append_assoc]⟩

theorem Lives.forEach {α : Type} {f : α → Code Unit} (hf : ∀ x, Lives P (f x)) :
    ∀ l : List α, Lives P (Prog.forEach f l)
  | [] => lives_of_tokenless trivial
  | x :: l => .bind (hf x) fun _ => Lives.forEach hf l

/-- **A tick is a stretch of a run**, whatever tasks it goes through. -/
theorem lives_run : Lives P (run P .lobby) := by
  have hend (e : Err) : Lives P (do
      call .endRun
      throw e : Code Unit) :=
    lives_of_tokenless (.bind (.perform trivial) fun _ => trivial)
  refine .bind (lives_of_tokenless (.perform trivial)) fun sessions => .bind (.handle (.forEach
    (fun l => .forEach (fun x => ?_) l) sessions) hend) fun _ => lives_of_tokenless (.perform trivial)
  by_cases hx : x = .consumeReport
  · subst hx
    intro es s es' out s' hlife hx
    exact ⟨es', List.Sublist.refl _, .consume hlife hx⟩
  · exact lives_of_tokenless (tokenless_runTask hx)

/-! ## The destructor -/

/-- The calls of the destructor before and after it empties the queue. -/
def Dismantling : Act → Prop
  | .storeStop _ _ | .joinable _ | .joinWorker _ | .getEfd _ | .trackedBy _ | .epollDel _ _ | .close _
  | .getListenFd | .closeListener | .dropTracker _ | .eraseChannel _ => True
  | _ => False

theorem Dismantling.harmless (ha : Dismantling a) : Harmless a := by
  cases a <;> first | exact ha.elim | exact ⟨trivial, fun _ hc => by cases hc⟩

/-- Channels of the map whose workers run are among `cs`. -/
def Staffed (cs : List ChId) (s : St) : Prop :=
  ∀ c ∈ s.lobby.ids, (s.chan c).worker = .running → c ∈ cs

theorem Staffed.dismantling {cs : List ChId} (hs : Staffed cs s) (ha : Dismantling a)
    (hx : exec t a r s = some s') : Staffed cs s' := by
  intro c hc hrun
  have hids : s'.lobby.ids ⊆ s.lobby.ids := by
    rw [exec_lobby hx]
    cases a
    case eraseChannel d => exact List.erase_subset
    all_goals first | exact ha.elim | exact List.Subset.refl _
  refine hs c (hids hc) ?_
  rw [exec_worker hx] at hrun
  cases a
  case joinWorker d =>
    rw [After.worker] at hrun
    split at hrun
    · cases hrun
    · exact hrun
  case dropTracker d =>
    rw [After.worker] at hrun
    split at hrun
    · cases hrun
    · exact hrun
  all_goals first | exact ha.elim | exact hrun

theorem Staffed.queueing {cs : List ChId} (hs : Staffed cs s) (ha : ¬ Tokenless a)
    (hx : exec t a r s = some s') : Staffed cs s' := by
  intro c hc hrun
  rw [exec_lobby hx] at hc
  rw [exec_worker hx] at hrun
  cases a <;> first | exact absurd trivial ha | exact hs c hc hrun

/-- A request does not touch the map or a thread. -/
theorem submits_keeps (hs : Submits P c s s') : s'.lobby.ids = s.lobby.ids ∧
    ∀ d, (s'.chan d).worker = (s.chan d).worker := by
  obtain ⟨n, target, root, es, out, hx⟩ := hs
  have hkeep := Solo.Triple.keep (W := lone (.chan c) Eq) (P := fun _ s₁ => s₁.lobby.ids = s.lobby.ids ∧
    ∀ d, (s₁.chan d).worker = (s.chan d).worker) (fun _ s₁ s₂ hs heq => by cases heq; exact hs)
      (asking_channelOnReq P.js c n target root) fun a r _ s₁ s₂ ha hs hx => ?_
  · obtain ⟨hok, herr⟩ := hkeep.exec ⟨rfl, fun _ => rfl⟩ hx
    cases out with
    | ok a => exact hok a rfl
    | error e => exact herr e rfl
  · refine ⟨?_, fun d => ?_⟩
    · rw [exec_lobby hx, ← hs.1]
      cases a <;> first | rfl | exact ha.elim
    · rw [exec_worker hx, ← hs.2 d]
      cases a <;> first | rfl | exact ha.elim

/-- The account while the workers of `cs` may still run. -/
def WindingDown (spilt : List Nat) (cs : List ChId) (h : Hist sig) (s : St) : Prop :=
  Account spilt none 0 h s ∧ Staffed cs s

/-- The account when nothing can be reported any more. -/
def Closed (spilt : List Nat) (cur : Option Nat) (k : Nat) (h : Hist sig) (s : St) : Prop :=
  Account spilt cur k h s ∧ Staffed [] s ∧ s.lobby.reports = []

theorem stable_closing {cs : List ChId} : (lone .lobby (Outgoing P)).Stable (WindingDown spilt cs) := by
  intro h s s' hs hr
  induction hr with
  | refl => exact hs
  | tail _ hstep ih =>
    rcases hstep with ⟨c, -, -, hsub⟩ | ⟨hu, hids, hrun⟩
    · obtain ⟨hids, hworker⟩ := submits_keeps hsub
      refine ⟨ih.1.adds (adds_submits hsub), fun d hd hdrun => ?_⟩
      exact ih.2 d (hids ▸ hd) (hworker d ▸ hdrun)
    · exact ⟨ih.1.unrelated hu, fun d hd hdrun => ih.2 d (hids ▸ hd) (hrun d hdrun)⟩

theorem stable_closed : (lone .lobby (Outgoing P)).Stable (Closed spilt cur k) := by
  intro h s s' hs hr
  induction hr with
  | refl => exact hs
  | tail _ hstep ih =>
    rcases hstep with ⟨c, hc, hrun, -⟩ | ⟨hu, hids, hrun⟩
    · -- nobody is left to submit anything
      exact absurd (ih.2.1 c hc hrun) List.not_mem_nil
    · exact ⟨ih.1.unrelated hu, fun d hd hdrun => ih.2.1 d (hids ▸ hd) (hrun d hdrun),
        hu.reports.trans ih.2.2⟩

variable {E : Err → Hist sig → St → Prop} {cs : List ChId}

theorem winding_call {a : Act} (ha : Dismantling a) : (lone .lobby (Outgoing P)).Triple
    (WindingDown spilt cs) (call a) (fun _ => WindingDown spilt cs) E :=
  .perform stable_closing fun _ _ _ _ hs hx => ⟨hs.1.harmless ha.harmless hx, hs.2.dismantling ha hx⟩

theorem winding_destroyServerBase (c : ChId) : (lone .lobby (Outgoing P)).Triple
    (WindingDown spilt cs) (destroyServerBase c) (fun _ => WindingDown spilt cs) E := by
  refine .bind (winding_call trivial) fun e => .bind (winding_call trivial) fun l => ?_
  have hend : (lone .lobby (Outgoing P)).Triple (WindingDown spilt cs) (do
      if (← call .getListenFd) ≠ fdErr then call .closeListener
      call (.dropTracker c)) (fun _ => WindingDown spilt cs) E := by
    refine .bind (winding_call trivial) fun n => ?_
    split
    · exact .bind (winding_call trivial) fun _ => winding_call trivial
    · exact winding_call trivial
  split
  · refine .bind (.forEach (I := fun _ => WindingDown spilt cs) (fun n _ => ?_) l) fun _ =>
      .bind (winding_call trivial) fun _ => hend
    refine .bind (winding_call trivial) fun _ => ?_
    split
    · exact winding_call trivial
    · exact .ret fun _ _ hs => hs
  · refine .bind (.forEach (I := fun _ => WindingDown spilt cs) (fun n _ => ?_) l) fun _ => hend
    split
    · exact winding_call trivial
    · exact .ret fun _ _ hs => hs

/-- Deleting a channel waits for its worker. -/
theorem winding_deleteChannel (c : ChId) (cs : List ChId) : (lone .lobby (Outgoing P)).Triple
    (WindingDown spilt (c :: cs)) (deleteChannel c) (fun _ => WindingDown spilt cs) E := by
  have hgone {s : St} (hs : Staffed (c :: cs) s) (hc : (s.chan c).worker = .absent) : Staffed cs s := by
    intro d hd hrun
    rcases List.mem_cons.mp (hs d hd hrun) with rfl | hmem
    · rw [hc] at hrun
      cases hrun
    · exact hmem
  refine .bind (winding_call trivial) fun _ => .bind (Q := fun b => if b then WindingDown spilt (c :: cs)
    else WindingDown spilt cs) (.perform stable_closing fun b h s s' hs hx => ?_) fun b => ?_
  · have hacc := hs.1.harmless (Dismantling.harmless (a := .joinable c) trivial) hx
    have hst := hs.2.dismantling (a := .joinable c) trivial hx
    obtain ⟨hb, rfl⟩ := need_eq_some.mp hx
    cases b with
    | true => exact ⟨hacc, hst⟩
    | false => exact ⟨hacc, hgone hst (not_not.mp (of_decide_eq_false hb.symm))⟩
  · cases b with
    | false => exact winding_destroyServerBase c
    | true =>
      refine .bind (Q := fun _ => WindingDown spilt cs) (.perform stable_closing fun _ h s s' hs hx => ?_)
        fun _ => winding_destroyServerBase c
      have hst := hs.2.dismantling (a := .joinWorker c) trivial hx
      refine ⟨hs.1.harmless (Dismantling.harmless (a := .joinWorker c) trivial) hx, hgone hst ?_⟩
      rw [exec_worker hx, After.worker, if_pos rfl]

theorem Closed.next (hs : Closed spilt none k h s) {o : Option ChannelReport}
    (hx : exec t .nextReport o s = some s') :
    Closed spilt (o.map ChannelReport.ptr) (k - 1) (h ++ [⟨.nextReport, o⟩]) s' ∧
      (o = none ↔ k = 0) := by
  obtain ⟨hnext, hnone⟩ := hs.1.next hx
  refine ⟨⟨hnext, hs.2.1.queueing (a := .nextReport) id hx, ?_⟩, hnone⟩
  rw [exec_lobby hx]
  exact hs.2.2

/-- What is left in the queue is deleted. -/
theorem closed_releaseLoop : ∀ k : Nat, (lone .lobby (Outgoing P)).Triple (Closed spilt none k)
    (releaseLoop k) (fun _ => Closed spilt none 0) E
  | 0 => by
    refine .bind (Q := fun _ => Closed spilt none 0) (.perform stable_closed fun o h s s' hs hx => ?_)
      fun _ => .ret fun _ _ h => h
    obtain ⟨hnext, hnone⟩ := hs.next hx
    rw [hnone.mpr rfl] at hnext ⊢
    exact hnext
  | k + 1 => by
    refine .bind (Q := fun o h s => o ≠ none ∧ Closed spilt (o.map ChannelReport.ptr) k h s)
      (.perform stable_closed fun o h s s' hs hx => ?_) fun o => .pure fun ho => ?_
    · obtain ⟨hnext, hnone⟩ := hs.next hx
      exact ⟨fun ho => absurd (hnone.mp ho) (Nat.succ_ne_zero k), hnext⟩
    · cases o with
      | none => exact absurd rfl ho
      | some x =>
        refine .bind (Q := fun _ => Closed spilt none k) (.perform stable_closed
          fun r h s s' hs hx => ?_) fun _ => closed_releaseLoop k
        refine ⟨hs.1.release hx, hs.2.1.queueing (a := .deleteJoinReq x.ptr) id hx, ?_⟩
        rw [exec_lobby hx]
        exact hs.2.2

/-- In the end there is nothing but what was lost before. -/
theorem account_destroyChannelServer : (lone .lobby (Outgoing P)).Triple (Account spilt none 0)
    destroyChannelServer (fun _ => Closed spilt none 0) E := by
  have hstable : (lone .lobby (Outgoing P)).Stable (Account spilt none 0) := by
    intro h s s' hs hr
    induction hr with
    | refl => exact hs
    | tail _ hstep ih =>
      rcases hstep with ⟨c, -, -, hsub⟩ | ⟨hu, -, -⟩
      · exact ih.adds (adds_submits hsub)
      · exact ih.unrelated hu
  refine .bind (Q := fun ids => WindingDown spilt ids) (.perform hstable fun ids h s s' hs hx => ?_)
    fun ids => .bind (.forEach winding_deleteChannel ids) fun _ =>
      .bind (Q := fun k => Closed spilt none k) (.perform stable_closing fun k h s s' hs hx => ?_)
        fun k => .bind (closed_releaseLoop k) fun _ => .forEach (I := fun _ => Closed spilt none 0)
          (fun c _ => .perform stable_closed fun r h s s' hs hx => ?_) ids
  · have hacc := hs.harmless (a := .channelIds) ⟨trivial, fun _ hc => by cases hc⟩ hx
    obtain ⟨hperm, rfl⟩ := need_eq_some.mp hx
    exact ⟨hacc, fun c hc _ => hperm.mem_iff.mpr hc⟩
  · refine ⟨hs.1.pop hx, hs.2.queueing (a := .popReports) id hx, ?_⟩
    rw [exec_lobby hx]
    rfl
  · refine ⟨hs.1.harmless (Dismantling.harmless (a := .eraseChannel c) trivial) hx,
      hs.2.1.dismantling (a := .eraseChannel c) trivial hx, ?_⟩
    rw [exec_lobby hx]
    exact hs.2.2

end

/-- **Join requests are owned by the queue** in a run exactly if no `consume_report` found the target of a
report full, and none was left by an exception. -/
theorem owned_iff {P : Params} {es : Hist sig} {s : St} (hlife : Life P es s) : Owned P es s ↔ Tidy es := by
  obtain ⟨spilt, hs⟩ := balanced_life hlife
  have hlocal : s.lobby.localQ = [] := List.length_eq_zero_iff.mp hs.local'
  have howners := hs.owners
  rw [hlocal] at howners
  constructor
  · intro howned
    -- what is lost is in no report
    have hlen := (howners.symm.trans howned.owners).length_eq
    refine hs.tidy.mp (List.length_eq_zero_iff.mp ?_)
    simpa [carried] using hlen
  · intro htidy
    obtain rfl := hs.tidy.mpr htidy
    have hqueue : s.joinReqs.Perm (carried s.lobby.reports) := howners
    have honce := List.nodup_append.mp hs.once
    refine ⟨hqueue, hqueue.nodup_iff.mp honce.2.1, honce.1, fun es' out s' hx => ?_⟩
    obtain ⟨hok, herr⟩ := Solo.leads_exec hx
      (account_destroyChannelServer (E := fun _ _ _ => False) es s hs)
    cases out with
    | error e => exact (herr e rfl).elim
    | ok a =>
      obtain ⟨hend, -, hreports⟩ := hok a rfl
      refine ⟨?_, (List.nodup_append.mp hend.once).1⟩
      have hleft := hend.owners
      rw [List.length_eq_zero_iff.mp hend.local', hreports] at hleft
      exact hleft.eq_nil

instance : DecidablePred Spills := fun ⟨a, r⟩ => by
  revert r
  apply a.casesOn (motive := fun a => (r : Res a) → Decidable (Spills ⟨a, r⟩)) <;> intros <;>
    unfold Spills <;> infer_instance

/-- Channel 1 and channel 2, which takes `room` clients and has one. -/
def pair (room : Int32) : St :=
  (((init sample).openFile 7 (.conn 0)).onBase (.chan 2) fun b =>
    { b with clients := {9}, maxFd := room }).onLobby fun l => { l with ids := [1, 2] }

def switchRequest : FlatJson.js.Json := [(ascii "channel_id", .int 2), (ascii "timestamp", .int 5)]

/-- A user of channel 1 asks to go to channel 2. -/
def askSwitch : Code Unit := channelOnReq FlatJson.js 1 7 (ascii "join") switchRequest

/-- Then the lobby has the report. -/
def asked (room : Int32) : St :=
  ((executed (.chan 1) askSwitch (pair room) {}).map fun x => x.2.2).getD (pair room)

theorem life_asked (room : Int32) : Life sample [] (asked room) := by
  have hpair : Elsewhere sample (init sample) (pair room) := .single (.inr ⟨rfl, rfl, rfl, rfl⟩)
  refine .elsewhere .start ?_
  unfold asked
  cases hx : executed (.chan 1) askSwitch (pair room) {} with
  | none => exact hpair
  | some x =>
    refine hpair.tail (.inl ⟨1, 7, ascii "join", switchRequest, x.1, x.2.1, ?_⟩)
    exact Solo.exec_of_execute (W := lone (.chan 1) Eq) (fun _ _ _ _ h => h) (fun _ => rfl) hx

theorem owned_applied : ∃ es s, Life sample es s ∧ ⟨.deleteJoinReq 0, ()⟩ ∈ es ∧ Owned sample es s := by
  obtain ⟨es, out, s, hx, hdelete, htidy⟩ : ∃ es out s, (lone .lobby (Elsewhere sample)).Exec
      (consumeReport sample) (asked 9) es out s ∧ ⟨.deleteJoinReq 0, ()⟩ ∈ es ∧
        ∀ e ∈ es, ¬ Spills e :=
    exists_exec (fun _ => .refl) {} (by decide +kernel)
  have hlife := (life_asked 9).consume hx
  exact ⟨es, s, hlife, hdelete, (owned_iff hlife).mpr htidy⟩

/-- Channel 2 is full: its queue is empty and the object is still there. -/
theorem refused_leaks : ∃ es s, Life sample es s ∧ ¬ Owned sample es s := by
  obtain ⟨es, out, s, hx, hleft, hqueue⟩ : ∃ es out s, (lone .lobby (Elsewhere sample)).Exec
      (consumeReport sample) (asked 1) es out s ∧ s.joinReqs.length = 1 ∧ s.lobby.reports.length = 0 :=
    exists_exec (fun _ => .refl) {} (by decide +kernel)
  refine ⟨es, s, (life_asked 1).consume hx, fun howned => ?_⟩
  have := howned.owners.length_eq
  simp [carried, hleft, hqueue] at this

end ChatChannel
