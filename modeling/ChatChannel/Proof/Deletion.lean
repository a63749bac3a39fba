import ChatChannel.Model.Script
import ChatChannel.Proof.Alphabet
import ChatChannel.Proof.Tracker

/-!
# What `resolve_deletion` carries out

`delete_client` raises when epoll does not know the descriptor, and then it has not taken it out of
`clients` either. The lobby skips the rest for such a descriptor, so a connection that was refused
because the tracker is full stays open for good; a channel goes on, and leaves behind a client that
was never deleted. Everything else is carried out (`deletions_done_iff`).
-/

set_option autoImplicit false

namespace ChatChannel

open Conc

/-- The connection is closed, and the server has forgotten it. -/
structure Forgotten (v : Srv) (n : Fd) (s : St) : Prop where
  closed : s.file n = none
  member : n ∉ (s.base v).clients
  name : s.names n = none
  buffer : (s.base v).rbuf n = none

/-- What has to hold before `resolve_deletion` of a descriptor that is scheduled. -/
def Removable : Srv → Fd → St → Prop
  | .lobby, n, s => s.deletable .lobby n
  | .chan c, n, s => n ∈ (s.base (.chan c)).clients → s.deletable (.chan c) n

/-- Nobody else deals with the scheduled descriptors. -/
def LeavesAlone (v : Srv) (D : List Fd) (s s' : St) : Prop :=
  SameSelf v s s' ∧ ∀ n ∈ D, SameAt v n s s'

/-! ## One descriptor -/

section

variable {v : Srv} {D rest : List Fd} {n m : Fd} {s₀ s s' : St} {a : Act} {r : Res a}
  {rely : St → St → Prop}

/-- Closed, and without a name and a buffer. -/
def Wound (v : Srv) (n : Fd) (s : St) : Prop :=
  s.file n = none ∧ s.names n = none ∧ (s.base v).rbuf n = none

/-- A client only if it was one that could not be deleted. -/
def Struck (v : Srv) (n : Fd) (s₀ s : St) : Prop :=
  n ∈ (s.base v).clients ↔ n ∈ (s₀.base v).clients ∧ ¬ s₀.deletable v n

/-- What `resolve_deletion` has made of a descriptor. -/
def Done (v : Srv) (n : Fd) (s₀ s : St) : Prop :=
  Struck v n s₀ s ∧ if v = .lobby ∧ ¬ s₀.deletable v n then
    File.conn? (s.file n) = File.conn? (s₀.file n) else Wound v n s

theorem SameAt.wound (h : SameAt v n s s') (hs : Wound v n s) : Wound v n s' :=
  ⟨h.closed.mpr hs.1, h.name.trans hs.2.1, h.buffer.trans hs.2.2⟩

theorem SameAt.struck (h : SameAt v n s s') (hs : Struck v n s₀ s) : Struck v n s₀ s' :=
  h.member.trans hs

theorem SameAt.done (h : SameAt v n s s') (hs : Done v n s₀ s) : Done v n s₀ s' := by
  refine ⟨h.struck hs.1, ?_⟩
  have hs := hs.2
  split
  · rename_i hkept
    rw [if_pos hkept] at hs
    exact h.conn.trans hs
  · rename_i hgone
    rw [if_neg hgone] at hs
    exact h.wound hs

/-- A descriptor that could be removed is forgotten, and one that could not is not. -/
theorem Done.forgotten_iff (h : Done v n s₀ s) (hopen : (File.conn? (s₀.file n)).isSome) :
    Forgotten v n s ↔ Removable v n s₀ := by
  obtain ⟨hstruck, hrest⟩ := h
  by_cases hdel : s₀.deletable v n
  · rw [if_neg (by simp [hdel])] at hrest
    refine iff_of_true ⟨hrest.1, fun hm => (hstruck.mp hm).2 hdel, hrest.2.1, hrest.2.2⟩ ?_
    cases v with
    | lobby => exact hdel
    | chan c => exact fun _ => hdel
  · cases v with
    | lobby =>
      rw [if_pos ⟨rfl, hdel⟩] at hrest
      refine iff_of_false (fun hf => ?_) hdel
      rw [hf.closed] at hrest
      rw [← hrest] at hopen
      cases hopen
    | chan c =>
      rw [if_neg (by simp)] at hrest
      have hmember : n ∈ (s.base (.chan c)).clients ↔ n ∈ (s₀.base (.chan c)).clients :=
        hstruck.trans (and_iff_left hdel)
      constructor
      · intro hf hm
        exact absurd (hmember.mpr hm) hf.member
      · intro hr
        exact ⟨hrest.1, fun hm => hdel (hr (hmember.mp hm)), hrest.2.1, hrest.2.2⟩

/-- The other scheduled descriptors while `n` is dealt with: those before it are done, and nothing has
happened to those behind it. -/
structure Frame (v : Srv) (D : List Fd) (n : Fd) (rest : List Fd) (s₀ s : St) : Prop where
  self : SameSelf v s₀ s
  waiting : ∀ m ∈ rest, SameAt v m s₀ s
  done : ∀ m ∈ D, m ∉ rest → m ≠ n → Done v m s₀ s
  sub : n ∈ D ∧ rest ⊆ D
  fresh : n ∉ rest

theorem Frame.touch (h : Frame v D n rest s₀ s) (hx : exec v a r s = some s') (ha : Touches n a)
    (hn : a = .close n → (File.conn? (s.file n)).isSome) : Frame v D n rest s₀ s' where
  self := h.self.trans (sameSelf_of_touches hx ha)
  waiting m hm := (h.waiting m hm).trans
    (sameAt_of_touches hx ha (fun he => h.fresh (he ▸ hm)) hn)
  done m hm hr hne := (sameAt_of_touches hx ha hne hn).done (h.done m hm hr hne)
  sub := h.sub
  fresh := h.fresh

theorem Frame.keep (h : Frame v D n rest s₀ s) (hr : LeavesAlone v D s s') :
    Frame v D n rest s₀ s' where
  self := h.self.trans hr.1
  waiting m hm := (h.waiting m hm).trans (hr.2 m (h.sub.2 hm))
  done m hm hrest hne := (hr.2 m hm).done (h.done m hm hrest hne)
  sub := h.sub
  fresh := h.fresh

/-- The assertion while `n` is dealt with; `φ` says how far it is. -/
def Amid (v : Srv) (D : List Fd) (n : Fd) (rest : List Fd) (s₀ : St) (φ : St → Prop)
    (_ : Hist sig) (s : St) : Prop := Frame v D n rest s₀ s ∧ φ s

variable {φ : St → Prop} {E : Err → Hist sig → St → Prop}

theorem stable_amid (hrely : ∀ s s', rely s s' → LeavesAlone v D s s')
    (hφ : ∀ s s', SameAt v n s s' → φ s → φ s') : (lone v rely).Stable (Amid v D n rest s₀ φ) := by
  rintro h s s' ⟨hf, hs⟩ hr
  exact ⟨hf.keep (hrely s s' hr), hφ s s' ((hrely s s' hr).2 n hf.sub.1) hs⟩

/-- The rule for a call that deals with `n`. -/
theorem exec_touch {ψ : Res a → St → Prop} (hrely : ∀ s s', rely s s' → LeavesAlone v D s s')
    (ha : Touches n a) (hφ : ∀ s s', SameAt v n s s' → φ s → φ s')
    (hn : a = .close n → ∀ s, φ s → (File.conn? (s.file n)).isSome)
    (hstep : ∀ r s s', SameSelf v s₀ s → φ s → exec v a r s = some s' → ψ r s') :
    (lone v rely).Triple (Amid v D n rest s₀ φ) (call a) (fun r => Amid v D n rest s₀ (ψ r)) E :=
  .perform (stable_amid hrely hφ) fun r _ s s' hs hx =>
    ⟨hs.1.touch hx ha fun h => hn h s hs.2, hstep r s s' hs.1.self hs.2 hx⟩

/-- A call that deals with no descriptor leaves each as it is. -/
theorem sameAt_of_neutral (hx : exec v a r s = some s') (ha : ∀ k, Touches k a)
    (hc : ∀ k, a ≠ .close k) : SameAt v n s s' :=
  sameAt_of_touches hx (ha (n + 1)) (Int.ne_of_lt (Int.lt_succ n)) fun h => absurd h (hc _)

theorem exec_neutral (hrely : ∀ s s', rely s s' → LeavesAlone v D s s') (ha : ∀ k, Touches k a)
    (hc : ∀ k, a ≠ .close k) (hφ : ∀ s s', SameAt v n s s' → φ s → φ s') :
    (lone v rely).Triple (Amid v D n rest s₀ φ) (call a) (fun _ => Amid v D n rest s₀ φ) E :=
  exec_touch hrely (ha n) hφ (fun h => absurd h (hc n))
    fun _ s s' _ hs hx => hφ s s' (sameAt_of_neutral hx ha hc) hs

/-- `delete_client` has been tried. -/
def Tried (v : Srv) (n : Fd) (s₀ s : St) : Prop :=
  Struck v n s₀ s ∧ File.conn? (s.file n) = File.conn? (s₀.file n)

theorem exec_trackerDelete (hrely : ∀ s s', rely s s' → LeavesAlone v D s s') :
    (lone v rely).Triple (Amid v D n rest s₀ (SameAt v n s₀)) (trackerDelete n)
      (fun _ => Amid v D n rest s₀ fun s => Tried v n s₀ s ∧ s₀.deletable v n)
      fun _ => Amid v D n rest s₀ fun s => Tried v n s₀ s ∧ ¬ s₀.deletable v n := by
  refine .bind (exec_touch (ψ := fun b s => Tried v n s₀ s ∧ (b = true ↔ s₀.deletable v n)) hrely rfl
    (fun s s' h hs => hs.trans h) (fun h => by cases h) fun b s s' hself hs hx => ?_) fun b => ?_
  · have hconn : File.conn? (s'.file n) = File.conn? (s.file n) := by
      rw [exec_file hx]
      cases b with
      | true => exact St.conn?_onInterest ..
      | false => rfl
    have hb : b = true ↔ s₀.deletable v n := by
      rw [← hs.deletable hself]
      cases b with
      | true => exact iff_of_true rfl (need_eq_some.mp hx).1
      | false => exact iff_of_false Bool.false_ne_true (need_eq_some.mp hx).1
    refine ⟨⟨?_, hconn.trans hs.conn⟩, hb⟩
    unfold Struck
    rw [exec_clients hx, After.clients, if_pos rfl, ← hb, ← hs.member]
    split
    · rename_i h
      simp [h]
    · rename_i h
      simp [h]
  · cases b with
    | true => exact .ret fun _ _ hs => ⟨hs.1, hs.2.1, hs.2.2.mp rfl⟩
    | false => exact .raise fun _ _ hs => ⟨hs.1, hs.2.1, fun hd => by simpa using hs.2.2.mpr hd⟩

/-- Removing the name, closing and clearing the buffer. -/
theorem exec_wind (hrely : ∀ s s', rely s s' → LeavesAlone v D s s')
    (hopen : (File.conn? (s₀.file n)).isSome) :
    (lone v rely).Triple (Amid v D n rest s₀ (Tried v n s₀))
      (do
        call (.removeUserName n)
        call (.close n)
        call (.clearBuffer n))
      (fun _ => Amid v D n rest s₀ fun s => Struck v n s₀ s ∧ Wound v n s) E := by
  refine .bind (exec_touch (ψ := fun _ s => Tried v n s₀ s ∧ s.names n = none) hrely rfl
    (fun s s' h hs => ⟨h.struck hs.1, h.conn.trans hs.2⟩) (fun h => by cases h)
    fun _ s s' _ hs hx => ⟨⟨?_, ?_⟩, ?_⟩) fun _ => .bind (exec_touch
    (ψ := fun _ s => Struck v n s₀ s ∧ s.file n = none ∧ s.names n = none) hrely rfl
    (fun s s' h hs => ⟨⟨h.struck hs.1.1, h.conn.trans hs.1.2⟩, h.name.trans hs.2⟩)
    (fun _ s hs => by rw [hs.1.2]; exact hopen)
    fun _ s s' _ hs hx => ⟨?_, ?_, ?_⟩) fun _ => exec_touch hrely rfl
    (fun s s' h hs => ⟨h.struck hs.1, h.closed.mpr hs.2.1, h.name.trans hs.2.2⟩) (fun h => by cases h)
    fun _ s s' _ hs hx => ⟨?_, ?_, ?_, ?_⟩
  · unfold Struck
    rw [exec_clients hx]
    exact hs.1
  · rw [exec_file hx]
    exact hs.2
  · rw [exec_names hx]
    exact Function.update_self ..
  · unfold Struck
    rw [exec_clients hx]
    exact hs.1.1
  · rw [exec_file hx]
    show (s.closeFile n).file n = none
    rw [St.closeFile_file, Function.update_self]
  · rw [exec_names hx]
    exact hs.2
  · unfold Struck
    rw [exec_clients hx]
    exact hs.1
  · rw [exec_file hx]
    exact hs.2.1
  · rw [exec_names hx]
    exact hs.2.2
  · rw [exec_rbuf hx, After.rbuf, if_pos rfl, Function.update_self]

theorem exec_wind_mem (hrely : ∀ s s', rely s s' → LeavesAlone v D s s')
    (hopen : ∀ n ∈ D, (File.conn? (s₀.file n)).isSome) :
    (lone v rely).Triple (Amid v D n rest s₀ (Tried v n s₀))
      (do
        call (.removeUserName n)
        call (.close n)
        call (.clearBuffer n))
      (fun _ => Amid v D n rest s₀ fun s => Struck v n s₀ s ∧ Wound v n s) E :=
  fun h s hs => exec_wind hrely (hopen n hs.1.sub.1) h s hs

/-! ## The loop -/

/-- The loop body of `ChannelServer::resolve_deletion`. -/
def lobbyVisit (n : Fd) : Code Unit := do
  call (.setCursor (some n))
  let deleted ← tryCatch (do trackerDelete n; pure true) fun _ => pure false
  if deleted then
    call (.removeUserName n)
    call (.close n)
    call (.clearBuffer n)

/-- The loop body of `Channel::resolve_deletion`. -/
def channelVisit (c : ChId) (n : Fd) : Code Unit := do
  call (.setCursor (some n))
  let timestamp ← call .systemNow
  let userName ← call (.getUserName n)
  call (.pushMq n (sysMsg c (ascii "leave") timestamp (userName.getD (ascii "unknown"))))
  tryCatch (trackerDelete n) fun _ => pure ()
  call (.removeUserName n)
  call (.close n)
  call (.clearBuffer n)

/-- `rest` is still to be visited. -/
structure Visiting (v : Srv) (D : List Fd) (s₀ : St) (rest : List Fd) (_ : Hist sig) (s : St) :
    Prop where
  self : SameSelf v s₀ s
  waiting : ∀ m ∈ rest, SameAt v m s₀ s
  done : ∀ m ∈ D, m ∉ rest → Done v m s₀ s
  sub : rest ⊆ D
  nodup : rest.Nodup

theorem stable_visiting (hrely : ∀ s s', rely s s' → LeavesAlone v D s s') :
    (lone v rely).Stable (Visiting v D s₀ rest) := fun _ s s' hs hr =>
  have hr := hrely s s' hr
  { self := hs.self.trans hr.1
    waiting := fun m hm => (hs.waiting m hm).trans (hr.2 m (hs.sub hm))
    done := fun m hm hrest => (hr.2 m hm).done (hs.done m hm hrest)
    sub := hs.sub
    nodup := hs.nodup }

theorem Visiting.begin {h : Hist sig} (hs : Visiting v D s₀ (n :: rest) h s) :
    Amid v D n rest s₀ (SameAt v n s₀) h s :=
  ⟨{  self := hs.self
      waiting := fun m hm => hs.waiting m (List.mem_cons_of_mem n hm)
      done := fun m hm hrest hne => hs.done m hm (by simp [hrest, hne])
      sub := ⟨hs.sub List.mem_cons_self, fun m hm => hs.sub (List.mem_cons_of_mem n hm)⟩
      fresh := (List.nodup_cons.mp hs.nodup).1 }, hs.waiting n List.mem_cons_self⟩

theorem Visiting.next {h : Hist sig} (hd : (n :: rest).Nodup) (hf : Frame v D n rest s₀ s)
    (hs : Done v n s₀ s) : Visiting v D s₀ rest h s where
  self := hf.self
  waiting := hf.waiting
  done m hm hrest := by
    by_cases hmn : m = n
    · exact hmn ▸ hs
    · exact hf.done m hm hrest hmn
  sub := hf.sub.2
  nodup := (List.nodup_cons.mp hd).2

theorem exec_setCursor (hrely : ∀ s s', rely s s' → LeavesAlone v D s s') (o : Option Fd) :
    (lone v rely).Triple (Visiting v D s₀ rest) (call (.setCursor o)) (fun _ => Visiting v D s₀ rest)
      E := by
  refine .perform (stable_visiting hrely) fun r _ s s' hs hx => ?_
  have hsame : ∀ m, SameAt v m s s' := fun m => sameAt_of_neutral hx (fun _ => trivial)
    fun _ h => by cases h
  exact
    { self := hs.self.trans (sameSelf_of_touches (n := 0) hx trivial)
      waiting := fun m hm => (hs.waiting m hm).trans (hsame m)
      done := fun m hm hrest => (hsame m).done (hs.done m hm hrest)
      sub := hs.sub
      nodup := hs.nodup }

theorem lobby_visit (hrely : ∀ s s', rely s s' → LeavesAlone .lobby D s s')
    (hopen : ∀ n ∈ D, (File.conn? (s₀.file n)).isSome) (n : Fd) (rest : List Fd) :
    (lone .lobby rely).Triple (Visiting .lobby D s₀ (n :: rest)) (lobbyVisit n)
      (fun _ => Visiting .lobby D s₀ rest) E := by
  refine .bind (exec_setCursor hrely _) fun _ => ?_
  refine .bind (Q := fun b h s => ((n :: rest).Nodup ∧ (b = true ↔ s₀.deletable .lobby n)) ∧
    Amid .lobby D n rest s₀ (Tried .lobby n s₀) h s) ?_ fun b => .pure fun hb => ?_
  · intro h s hs
    refine (Solo.Triple.handle (.bind (exec_trackerDelete hrely) fun _ => .ret (Q := fun b h s =>
      ((n :: rest).Nodup ∧ (b = true ↔ s₀.deletable .lobby n)) ∧
        Amid .lobby D n rest s₀ (Tried .lobby n s₀) h s)
      fun h s hd => ⟨⟨hs.nodup, iff_of_true rfl hd.2.2⟩, hd.1, hd.2.1⟩) fun e => .ret
      fun h s hd => ⟨⟨hs.nodup, iff_of_false Bool.false_ne_true hd.2.2⟩, hd.1, hd.2.1⟩) h s hs.begin
  · obtain ⟨hd, hb⟩ := hb
    cases b with
    | false =>
      have hkept : ¬ s₀.deletable .lobby n := fun h => Bool.false_ne_true (hb.mpr h)
      refine .ret fun h s hs => .next hd hs.1 ⟨hs.2.1, ?_⟩
      rw [if_pos ⟨rfl, hkept⟩]
      exact hs.2.2
    | true =>
      have hgone : s₀.deletable .lobby n := hb.mp rfl
      refine (exec_wind_mem hrely hopen).conseq (fun _ _ h => h) (fun _ h s hs => ?_)
        fun _ _ _ h => h
      refine .next hd hs.1 ⟨hs.2.1, ?_⟩
      rw [if_neg fun h => h.2 hgone]
      exact hs.2.2

/-- A channel's round. -/
theorem channel_visit {c : ChId} (hrely : ∀ s s', rely s s' → LeavesAlone (.chan c) D s s')
    (hopen : ∀ n ∈ D, (File.conn? (s₀.file n)).isSome) (n : Fd) (rest : List Fd) :
    (lone (.chan c) rely).Triple (Visiting (.chan c) D s₀ (n :: rest)) (channelVisit c n)
      (fun _ => Visiting (.chan c) D s₀ rest) E := by
  refine .bind (exec_setCursor hrely _) fun _ => ?_
  intro h s hs
  have hd := hs.nodup
  have hsame : ∀ s s', SameAt (.chan c) n s s' → SameAt (.chan c) n s₀ s → SameAt (.chan c) n s₀ s' :=
    fun _ _ h hs => hs.trans h
  refine (Solo.Triple.bind (exec_neutral (a := .systemNow) hrely (fun _ => trivial)
    (fun _ h => by cases h) hsame) fun timestamp => .bind (exec_neutral (a := .getUserName n) hrely
      (fun _ => trivial) (fun _ h => by cases h) hsame) fun userName => .bind (exec_neutral
        (a := .pushMq n (sysMsg c (ascii "leave") timestamp (userName.getD (ascii "unknown")))) hrely
        (fun _ => trivial) (fun _ h => by cases h) hsame) fun _ =>
        .bind (Q := fun _ => Amid (.chan c) D n rest s₀ (Tried (.chan c) n s₀)) ?_ fun _ =>
          (exec_wind_mem hrely hopen).conseq (fun _ _ h => h) (fun _ h s hs => ?_)
            fun _ _ _ h => h) h s hs.begin
  · exact .handle ((exec_trackerDelete hrely).conseq (fun _ _ h => h) (fun _ _ _ h => ⟨h.1, h.2.1⟩)
      fun _ _ _ h => h) fun _ => .ret fun _ _ h => ⟨h.1, h.2.1⟩
  · refine .next hd hs.1 ⟨hs.2.1, ?_⟩
    rw [if_neg fun h => by cases h.1]
    exact hs.2.2

/-- What `resolve_deletion` does with one descriptor. -/
def visit : Srv → Fd → Code Unit
  | .lobby => lobbyVisit
  | .chan c => channelVisit c

theorem resolveDeletion_eq (v : Srv) : resolveDeletion v = (call .getDeletion).bind fun doomed =>
    (Prog.forEach (visit v) doomed).bind fun _ => call (.setCursor none) := by
  cases v <;> rfl

theorem exec_visit (hrely : ∀ s s', rely s s' → LeavesAlone v D s s')
    (hopen : ∀ n ∈ D, (File.conn? (s₀.file n)).isSome) (n : Fd) (rest : List Fd) :
    (lone v rely).Triple (Visiting v D s₀ (n :: rest)) (visit v n) (fun _ => Visiting v D s₀ rest)
      E := by
  cases v with
  | lobby => exact lobby_visit hrely hopen n rest
  | chan c => exact channel_visit hrely hopen n rest

/-- The set is taken once. -/
theorem once_visit (n : Fd) : (visit v n).All fun a : Act => a ≠ .getDeletion := by
  have hwind : (do
      call (.removeUserName n)
      call (.close n)
      call (.clearBuffer n) : Code Unit).All fun a : Act => a ≠ .getDeletion :=
    .bind (.perform (by simp)) fun _ => .bind (.perform (by simp)) fun _ => .perform (by simp)
  have hdel := all_trackerDelete (n := n) (H := fun a : Act => a ≠ .getDeletion) (by simp)
  cases v with
  | lobby =>
    refine .bind (.perform (by simp)) fun _ => .bind (.handle (.bind hdel fun _ => trivial)
      fun _ => trivial) fun b => ?_
    cases b with
    | true => exact hwind
    | false => trivial
  | chan c =>
    exact .bind (.perform (by simp)) fun _ => .bind (.perform (by simp)) fun _ =>
      .bind (.perform (by simp)) fun _ => .bind (.perform (by simp)) fun _ =>
        .bind (.handle hdel fun _ => trivial) fun _ => hwind

/-- **What `resolve_deletion` makes of the descriptors it takes.** -/
theorem exec_resolveDeletion (hrely : ∀ s s', rely s s' → LeavesAlone v D s s')
    (hopen : ∀ n ∈ D, (File.conn? (s₀.file n)).isSome) {es : Hist sig} {out : Except Err Unit}
    (hx : (lone v rely).Exec (resolveDeletion v) s₀ es out s') (hD : ⟨.getDeletion, D⟩ ∈ es) :
    ∀ n ∈ D, Done v n s₀ s' := by
  rw [resolveDeletion_eq] at hx
  cases hx with
  | @act _ _ r _ s₁ s₂ _ es _ hr hs hx =>
    have hx : (lone v rely).Exec ((Prog.forEach (visit v) r).bind fun _ => call (.setCursor none))
      s₂ es out s' := hx
    have honce : ∀ e ∈ es, e.1 ≠ .getDeletion :=
      hx.path.all (H := fun a : Act => a ≠ .getDeletion)
        (.bind (.forEach once_visit r) fun _ => .perform fun h => by cases h)
    obtain rfl : D = r := by
      rcases List.mem_cons.mp hD with h | h
      · cases h
        rfl
      · exact absurd rfl (honce _ h)
    have hr := hrely _ _ hr
    have hnodup : D.Nodup := (need_eq_some.mp hs).1.1
    have hself : SameSelf v s₁ s₂ := sameSelf_of_touches (n := 0) hs trivial
    have hsame : ∀ m, SameAt v m s₁ s₂ := fun m => sameAt_of_neutral hs (fun _ => trivial)
      fun _ h => by cases h
    have hstart : Visiting v D s₀ D [] s₂ :=
      { self := hr.1.trans hself
        waiting := fun m hm => (hr.2 m hm).trans (hsame m)
        done := fun m hm hn => absurd hm hn
        sub := fun _ hm => hm
        nodup := hnodup }
    have hloop : (lone v rely).Triple (Visiting v D s₀ D)
        ((Prog.forEach (visit v) D).bind fun _ => call (.setCursor none))
        (fun _ => Visiting v D s₀ []) fun _ _ _ => False :=
      .bind (.forEach (exec_visit hrely hopen) D) fun _ => exec_setCursor hrely none
    obtain ⟨hok, herr⟩ := hloop.exec hstart hx
    cases out with
    | ok a => exact fun n hn => (hok a rfl).done n hn (by simp)
    | error e => exact (herr e rfl).elim

end

/-- **Scheduled deletions are carried out.** `resolve_deletion` closes and forgets every connection it
takes from `next_deletion` if and only if epoll finds each of them registered; in a channel it is
enough that it finds those that are clients. -/
theorem deletions_done_iff {v : Srv} {D : List Fd} {rely : St → St → Prop} {s s' : St} {es : Hist sig}
    {out : Except Err Unit} (hrely : ∀ s s', rely s s' → LeavesAlone v D s s')
    (hopen : ∀ n ∈ D, (File.conn? (s.file n)).isSome)
    (hx : (lone v rely).Exec (resolveDeletion v) s es out s') (hD : ⟨.getDeletion, D⟩ ∈ es) :
    (∀ n ∈ D, Forgotten v n s') ↔ ∀ n ∈ D, Removable v n s := by
  have hdone := exec_resolveDeletion hrely hopen hx hD
  constructor
  · intro h n hn
    exact ((hdone n hn).forgotten_iff (hopen n hn)).mp (h n hn)
  · intro h n hn
    exact ((hdone n hn).forgotten_iff (hopen n hn)).mpr (h n hn)

/-- A lobby that is about to delete the connection behind descriptor 5, which it tracks or not. -/
def scheduled (tracked : Finset Fd) : St :=
  ((((init sample).openFile 5 (.conn 0)).openFile lobbyEpoll (.epoll (insert lobbyListener tracked))).onBase
    .lobby fun b => { b with clients := tracked, nextDeletion := {5} })

/-- The server `v` is about to delete the connections behind 5 and 6, of which it tracks the first. -/
def condemning (v : Srv) (efd : Fd) (tracked : Finset Fd) : St :=
  ((((init sample).openFile 5 (.conn 0)).openFile 6 (.conn 1)).openFile efd (.epoll (insert lobbyListener tracked))).onBase
    v fun b => { b with efd := efd, clients := tracked, nextDeletion := {5, 6} }

/-- The lobby deletes two clients, and a channel one client and one descriptor that is not its own. -/
theorem deletions_done_tracked :
    (∃ es out s', (lone .lobby (LeavesAlone .lobby [5, 6])).Exec (resolveDeletion .lobby)
      (condemning .lobby lobbyEpoll {5, 6}) es out s' ∧ ∀ n ∈ [5, 6], Forgotten .lobby n s') ∧
    ∃ es out s', (lone (.chan 1) (LeavesAlone (.chan 1) [5, 6])).Exec (resolveDeletion (.chan 1))
      (condemning (.chan 1) 9 {5}) es out s' ∧ ∀ n ∈ [5, 6], Forgotten (.chan 1) n s' := by
  constructor
  · obtain ⟨es, out, s', hx, hD⟩ : ∃ es out s', (lone .lobby (LeavesAlone .lobby [5, 6])).Exec
        (resolveDeletion .lobby) (condemning .lobby lobbyEpoll {5, 6}) es out s' ∧ ⟨.getDeletion, [5, 6]⟩ ∈ es :=
      exists_exec (fun s => ⟨⟨rfl, rfl⟩, fun n _ => .refl _ n s⟩) {} (by decide +kernel)
    have hremovable : ∀ n ∈ [5, 6], (condemning .lobby lobbyEpoll {5, 6}).deletable .lobby n := by decide
    exact ⟨es, out, s', hx, (deletions_done_iff (fun _ _ h => h) (by decide) hx hD).mpr hremovable⟩
  · obtain ⟨es, out, s', hx, hD⟩ : ∃ es out s', (lone (.chan 1) (LeavesAlone (.chan 1) [5, 6])).Exec
        (resolveDeletion (.chan 1)) (condemning (.chan 1) 9 {5}) es out s' ∧ ⟨.getDeletion, [5, 6]⟩ ∈ es :=
      exists_exec (fun s => ⟨⟨rfl, rfl⟩, fun n _ => .refl _ n s⟩) {} (by decide +kernel)
    have hremovable : ∀ n ∈ [5, 6], n ∈ ((condemning (.chan 1) 9 {5}).base (.chan 1)).clients →
        (condemning (.chan 1) 9 {5}).deletable (.chan 1) n := by decide
    exact ⟨es, out, s', hx, (deletions_done_iff (fun _ _ h => h) (by decide) hx hD).mpr hremovable⟩

/-- A connection that was refused because the tracker is full is scheduled and stays open. -/
theorem refused_stays_open : ∃ es out s', (lone .lobby (LeavesAlone .lobby [5])).Exec
    (resolveDeletion .lobby) (scheduled ∅) es out s' ∧ ⟨.getDeletion, [5]⟩ ∈ es ∧
      ¬ Forgotten .lobby 5 s' := by
  obtain ⟨es, out, s', hx, hD, hopen⟩ : ∃ es out s', (lone .lobby (LeavesAlone .lobby [5])).Exec
      (resolveDeletion .lobby) (scheduled ∅) es out s' ∧ ⟨.getDeletion, [5]⟩ ∈ es ∧
        (s'.file 5).isSome = true :=
    exists_exec (fun s => ⟨⟨rfl, rfl⟩, fun n _ => .refl _ n s⟩) {} (by decide +kernel)
  refine ⟨es, out, s', hx, hD, fun hf => ?_⟩
  rw [hf.closed] at hopen
  cases hopen

end ChatChannel
