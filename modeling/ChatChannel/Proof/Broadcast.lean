import ChatChannel.Model.Script
import ChatChannel.Proof.Framing
import ChatChannel.Proof.Reply

/-!
# Who is evicted by a broadcast

`resolve_broadcast` packs all messages of a tick into one window and inserts every client the window
could not be sent to into `next_deletion`. The limit of a frame is checked in `send_frame`, once for
each client, and looks to `broadcast` like a failure of that client's socket.
-/

set_option autoImplicit false

namespace ChatChannel

open Conc

variable {js : Jansson} {n : Fd} {p : Bytes}

/-! ## Attempts to send a frame -/

/-- What the `send` calls on `n` answered, in order. -/
def replies (n : Fd) (es : Hist sig) : List (Option Nat) :=
  es.filterMap fun e =>
    match e with
    | ⟨.send m _, r⟩ => if m = n then some r else none
    | _ => none

/-- The header was sent in part only, or a `send` accepted nothing: no failure of `send`, but
`send_frame` gives up. -/
def CutShort (l : List (Option Nat)) : Prop :=
  some 0 ∈ l ∨ ∃ k, k ≠ 4 ∧ l.head? = some (some k)

theorem replies_append (n : Fd) (es es' : Hist sig) :
    replies n (es ++ es') = replies n es ++ replies n es' := List.filterMap_append

/-- The calls on `n`. -/
def toward (n : Fd) (es : Hist sig) : Hist sig :=
  es.filter fun e =>
    match e with
    | ⟨.send m _, _⟩ => decide (m = n)
    | _ => false

theorem toward_append (n : Fd) (es es' : Hist sig) :
    toward n (es ++ es') = toward n es ++ toward n es' := List.filter_append ..

theorem replies_toward (n : Fd) (es : Hist sig) : replies n (toward n es) = replies n es := by
  induction es with
  | nil => rfl
  | cons e es ih =>
    have hcons : e :: es = [e] ++ es := rfl
    rw [hcons, toward_append, replies_append, replies_append, ih]
    congr 1
    obtain ⟨a, r⟩ := e
    cases a <;> first | rfl | skip
    rename_i m b
    by_cases hm : m = n <;> simp [toward, replies, hm]

theorem replies_send (n : Fd) (b : Bytes) (r : Option Nat) (es : Hist sig) :
    replies n (⟨.send n b, r⟩ :: es) = r :: replies n es := by
  simp [replies]

theorem path_sendRest_replies {fuel : Nat} {rest : Bytes} {es : Hist sig} {out : Except Err Unit}
    (h : (sendRest n fuel rest).Path es out) :
      (out = .ok () ∧ none ∉ replies n es ∧ some 0 ∉ replies n es) ∨
      ((∃ e, out = .error e) ∧ (none ∈ replies n es ↔ some 0 ∉ replies n es)) := by
  induction fuel generalizing rest es out with
  | zero =>
    obtain ⟨rfl, rfl⟩ := Prog.path_ret_iff.mp h
    exact .inl ⟨rfl, by simp [replies], by simp [replies]⟩
  | succ fuel ih =>
    unfold sendRest at h
    split at h
    · obtain ⟨rfl, rfl⟩ := Prog.path_ret_iff.mp h
      exact .inl ⟨rfl, by simp [replies], by simp [replies]⟩
    · obtain ⟨r, es, rfl, hk⟩ := Prog.path_act_iff.mp h
      rw [replies_send]
      rcases r with _ | _ | k
      · obtain ⟨rfl, rfl⟩ := Prog.path_raise_iff.mp hk
        exact .inr ⟨⟨_, rfl⟩, by simp [replies]⟩
      · obtain ⟨rfl, rfl⟩ := Prog.path_raise_iff.mp hk
        exact .inr ⟨⟨_, rfl⟩, by simp [replies]⟩
      · rcases ih hk with ⟨rfl, hn, h0⟩ | ⟨he, hiff⟩
        · exact .inl ⟨rfl, by simpa using hn, by simpa using h0⟩
        · exact .inr ⟨he, by simpa using hiff⟩

/-- Why `send_frame` raises: the payload is too long, and nothing is sent; or a `send` failed; or one
was cut short. -/
theorem path_sendFrame_replies {es : Hist sig} {out : Except Err Unit}
    (h : (sendFrame n p).Path es out) :
    (maxFrameSize < p.length % 2 ^ 32 → es = [] ∧ ∃ e, out = .error e) ∧
    (p.length % 2 ^ 32 ≤ maxFrameSize →
      (out = .ok () ∧ none ∉ replies n es ∧ ¬ CutShort (replies n es)) ∨
      ((∃ e, out = .error e) ∧ (none ∈ replies n es ↔ ¬ CutShort (replies n es)))) := by
  unfold sendFrame at h
  by_cases h0 : p.length % 2 ^ 32 = 0
  · simp only [if_pos h0] at h
    obtain ⟨rfl, rfl⟩ := Prog.path_ret_iff.mp h
    refine ⟨fun hbig => absurd hbig (by rw [h0]; simp), fun _ => .inl ⟨rfl, ?_, ?_⟩⟩
    · simp [replies]
    · simp [replies, CutShort]
  · simp only [if_neg h0] at h
    by_cases hbig : maxFrameSize < p.length % 2 ^ 32
    · rw [if_pos hbig] at h
      obtain ⟨rfl, rfl⟩ := Prog.path_raise_iff.mp h
      exact ⟨fun _ => ⟨rfl, _, rfl⟩, fun hle => absurd hbig (Nat.not_lt.mpr hle)⟩
    · rw [if_neg hbig] at h
      refine ⟨fun h' => absurd h' hbig, fun _ => ?_⟩
      obtain ⟨r, es, rfl, hk⟩ := Prog.path_act_iff.mp h
      rw [Prog.bind_ret] at hk
      rw [replies_send]
      by_cases hr : r = some 4
      · subst hr
        have hcut : CutShort (some 4 :: replies n es) ↔ some 0 ∈ replies n es := by
          simp [CutShort]
        rw [hcut]
        rcases path_sendRest_replies hk with ⟨rfl, hn, hz⟩ | ⟨he, hiff⟩
        · exact .inl ⟨rfl, by simpa using hn, hz⟩
        · exact .inr ⟨he, by simpa using hiff⟩
      · have hraise : es = [] ∧ ∃ e, out = .error e := by
          split at hk
          · exact absurd rfl hr
          · obtain ⟨rfl, rfl⟩ := Prog.path_raise_iff.mp hk
            exact ⟨rfl, _, rfl⟩
        obtain ⟨rfl, he⟩ := hraise
        refine .inr ⟨he, ?_⟩
        cases r with
        | none => simp [replies, CutShort]
        | some k =>
          have hk4 : k ≠ 4 := fun h4 => hr (by rw [h4])
          simp [replies, CutShort, hk4]

/-! ## The broadcast -/

/-- The calls of `send_frame` to one of `l`. -/
def SendsTo (l : List Fd) : Act → Prop
  | .send n _ => n ∈ l
  | _ => False

theorem sendsTo_broadcast (l : List Fd) : (broadcast p l).All (SendsTo l) :=
  all_broadcast p l fun _ hn _ => hn

theorem toward_sendsTo {l : List Fd} {es : Hist sig} (hes : ∀ e ∈ es, SendsTo l e.1) (hn : n ∉ l) :
    toward n es = [] := by
  refine List.filter_eq_nil_iff.mpr fun e he => ?_
  have ha := hes e he
  obtain ⟨a, r⟩ := e
  cases a <;> first | exact ha.elim | skip
  rw [decide_eq_true_iff]
  rintro rfl
  exact hn ha

theorem toward_self {es : Hist sig} (hes : ∀ e ∈ es, SendsTo [n] e.1) : toward n es = es := by
  refine List.filter_eq_self.mpr fun e he => ?_
  have ha := hes e he
  obtain ⟨a, r⟩ := e
  cases a <;> first | exact ha.elim | skip
  exact decide_eq_true (List.mem_singleton.mp ha)

/-- One attempt, its exception turned into the name of the client. -/
theorem path_attempt {es : Hist sig} {out : Except Err (List Fd)}
    (h : (tryCatch (do sendFrame n p; pure []) fun _ => pure [n] : Code (List Fd)).Path es out) :
    ∃ o, (sendFrame n p).Path es o ∧
      ((o = .ok () ∧ out = .ok []) ∨ ((∃ e, o = .error e) ∧ out = .ok [n])) := by
  rcases Prog.path_handle_iff.mp h with ⟨l, rfl, hl⟩ | ⟨es₁, e, es₂, rfl, he, hk⟩
  · rcases Prog.path_bind_iff.mp hl with ⟨es₁, u, es₂, rfl, h₁, h₂⟩ | ⟨e, he, -⟩
    · obtain ⟨rfl, hout⟩ := Prog.path_ret_iff.mp h₂
      rw [List.append_nil]
      exact ⟨.ok (), h₁, .inl ⟨rfl, hout⟩⟩
    · cases he
  · obtain ⟨rfl, rfl⟩ := Prog.path_ret_iff.mp hk
    rw [List.append_nil]
    rcases Prog.path_bind_iff.mp he with ⟨es₃, u, es₄, rfl, -, h₂⟩ | ⟨e', he', h₁⟩
    · cases (Prog.path_ret_iff.mp h₂).2
    · exact ⟨_, h₁, .inr ⟨⟨e', rfl⟩, rfl⟩⟩

/-- A client is among the failed exactly if its own attempt raised. -/
theorem path_broadcast : ∀ {l : List Fd} {es : Hist sig} {out : Except Err (List Fd)},
    (broadcast p l).Path es out → l.Nodup → ∃ failed, out = .ok failed ∧
      ∀ n, (n ∉ l → n ∉ failed) ∧ (n ∈ l → ∃ es' o, (sendFrame n p).Path es' o ∧
        toward n es = es' ∧ (n ∈ failed ↔ ∃ e, o = .error e))
  | [], es, out, h, _ => by
    obtain ⟨rfl, rfl⟩ := Prog.path_ret_iff.mp h
    exact ⟨[], rfl, by simp⟩
  | m :: l, es, out, h, hnodup => by
    obtain ⟨hm, hl⟩ := List.nodup_cons.mp hnodup
    rcases Prog.path_bind_iff.mp h with ⟨es₁, first, es₂, rfl, h₁, h₂⟩ | ⟨e, rfl, he⟩
    · obtain ⟨o, hatt, hfirst⟩ := path_attempt h₁
      rcases Prog.path_bind_iff.mp h₂ with ⟨es₃, rest, es₄, rfl, h₃, h₄⟩ | ⟨e, rfl, he⟩
      · obtain ⟨rfl, rfl⟩ := Prog.path_ret_iff.mp h₄
        obtain ⟨rest', hrest', hall⟩ := path_broadcast h₃ hl
        cases hrest'
        have hes₁ : ∀ e ∈ es₁, SendsTo [m] e.1 :=
          hatt.all (all_sendFrame (fun _ => List.mem_cons_self) p)
        have hes₃ : ∀ e ∈ es₃, SendsTo l e.1 := h₃.all (sendsTo_broadcast l)
        have hmem : ∀ n, n ∈ first → n = m := by
          intro n hn
          rcases hfirst with ⟨-, hf⟩ | ⟨-, hf⟩ <;> cases hf
          · cases hn
          · exact List.mem_singleton.mp hn
        refine ⟨first ++ rest, rfl, fun n => ⟨fun hn => ?_, fun hn => ?_⟩⟩
        · rw [List.mem_cons, not_or] at hn
          rw [List.mem_append, not_or]
          exact ⟨fun h' => hn.1 (hmem n h'), (hall n).1 hn.2⟩
        · rw [List.append_nil, toward_append]
          by_cases hnm : n = m
          · subst hnm
            refine ⟨es₁, o, hatt, by rw [toward_sendsTo hes₃ hm, List.append_nil, toward_self hes₁], ?_⟩
            rw [List.mem_append, or_iff_left ((hall n).1 hm)]
            rcases hfirst with ⟨rfl, hf⟩ | ⟨⟨e, rfl⟩, hf⟩ <;> cases hf <;> simp
          · obtain ⟨es', o', hp, hans, hiff⟩ := (hall n).2 ((List.mem_cons.mp hn).resolve_left hnm)
            have hne : n ∉ [m] := by simpa using hnm
            refine ⟨es', o', hp, by rw [toward_sendsTo hes₁ hne, List.nil_append, hans], ?_⟩
            rw [List.mem_append, or_iff_right fun h' => hnm (hmem n h'), hiff]
      · obtain ⟨_, h', -⟩ := path_broadcast he hl
        cases h'
    · obtain ⟨_, -, ⟨-, h'⟩ | ⟨-, h'⟩⟩ := path_attempt he <;> cases h'

/-! ## The task -/

/-- What `resolve_broadcast` sends. -/
def window (js : Jansson) (cur : List (Msec64 × Fd × MessageReqDto)) : Option Bytes :=
  js.dumpArray (cur.filterMap fun q => js.pack (windowEntry q.1 q.2.2))

/-- `resolve_broadcast`, as far as the loop over the clients. -/
theorem path_resolveBroadcast_iff {es : Hist sig} {out : Except Err Unit} :
    (resolveBroadcast js).Path es out ↔ ∃ cur,
      (window js cur = none ∧ es = [⟨.getCurMsgs, cur⟩] ∧ out = .ok ()) ∨
        ∃ w clients es₁, window js cur = some w ∧
          es = ⟨.getCurMsgs, cur⟩ :: ⟨.getClients, clients⟩ :: es₁ ∧
            ((broadcast w clients).bind fun failed =>
              Prog.forEach (fun n => call (.insertDeletion n)) failed).Path es₁ out := by
  constructor
  · intro h
    obtain ⟨cur, es, rfl, hk⟩ := Prog.path_act_iff.mp h
    rw [Prog.bind_ret] at hk
    refine ⟨cur, ?_⟩
    split at hk
    · rename_i hw
      obtain ⟨rfl, rfl⟩ := Prog.path_ret_iff.mp hk
      exact .inl ⟨hw, rfl, rfl⟩
    · rename_i w hw
      obtain ⟨clients, es, rfl, hb⟩ := Prog.path_act_iff.mp hk
      exact .inr ⟨w, clients, es, hw, rfl, hb⟩
  · rintro ⟨cur, ⟨hw, rfl, rfl⟩ | ⟨w, clients, es₁, hw, rfl, hb⟩⟩
    · refine .act ?_
      rw [Prog.bind_ret]
      split
      · exact .ret ()
      · rename_i w' hw'
        cases hw.symm.trans hw'
    · refine .act ?_
      rw [Prog.bind_ret]
      split
      · rename_i hw'
        cases hw.symm.trans hw'
      · rename_i w' hw'
        obtain rfl : w = w' := Option.some.inj (hw.symm.trans hw')
        exact .act hb

/-- The window of a tick is not longer than a frame may be, unless there is nobody to send it to. -/
def Fits (js : Jansson) (es : Hist sig) : Prop :=
  ∀ cur w clients, ⟨.getCurMsgs, cur⟩ ∈ es → window js cur = some w → ⟨.getClients, clients⟩ ∈ es →
    clients ≠ [] → w.length % 2 ^ 32 ≤ maxFrameSize

/-- The deletions that are scheduled one after the other. -/
theorem path_insertAll : ∀ {l : List Fd} {es : Hist sig} {out : Except Err Unit},
    (Prog.forEach (fun n => call (.insertDeletion n)) l : Code Unit).Path es out →
      es = l.map fun n => ⟨.insertDeletion n, ()⟩
  | [], es, out, h => (Prog.path_ret_iff.mp h).1
  | n :: l, es, out, h => by
    obtain ⟨r, es, rfl, hk⟩ := Prog.path_act_iff.mp h
    rw [List.map_cons, path_insertAll hk]

/-- The task asks for the messages and for the clients once. -/
theorem ask_once {cur cur' : List (Msec64 × Fd × MessageReqDto)} {clients clients' failed : List Fd}
    {es : Hist sig} (hes : ∀ e ∈ es, SendsTo clients e.1)
    (hc : ⟨.getCurMsgs, cur'⟩ ∈ (⟨.getCurMsgs, cur⟩ :: ⟨.getClients, clients⟩ ::
      (es ++ failed.map fun n => ⟨.insertDeletion n, ()⟩) : Hist sig))
    (hcl : ⟨.getClients, clients'⟩ ∈ (⟨.getCurMsgs, cur⟩ :: ⟨.getClients, clients⟩ ::
      (es ++ failed.map fun n => ⟨.insertDeletion n, ()⟩) : Hist sig)) :
    cur' = cur ∧ clients' = clients := by
  have hrest : ∀ {e : Call sig}, e ∈ es ++ failed.map (fun n => ⟨.insertDeletion n, ()⟩) →
      e.1 ≠ .getCurMsgs ∧ e.1 ≠ .getClients := by
    intro e he
    rcases List.mem_append.mp he with he | he
    · have ha := hes e he
      obtain ⟨a, r⟩ := e
      cases a <;> first | exact ha.elim | simp
    · obtain ⟨m, -, rfl⟩ := List.mem_map.mp he
      simp
  constructor
  · rcases List.mem_cons.mp hc with heq | hc
    · cases heq
      rfl
    rcases List.mem_cons.mp hc with heq | hc
    · cases heq
    · exact absurd rfl (hrest hc).1
  · rcases List.mem_cons.mp hcl with heq | hcl
    · cases heq
    rcases List.mem_cons.mp hcl with heq | hcl
    · cases heq
      rfl
    · exact absurd rfl (hrest hcl).2

/-- **Whom a broadcast evicts.** On every path of `resolve_broadcast` every client that is inserted into
`next_deletion` is one on which a `send` failed, exactly if the window fits into a frame and no
`send` to a client was cut short. -/
theorem evicted_by_broadcast_iff (js : Jansson) (es : Hist sig) (out : Except Err Unit)
    (h : (resolveBroadcast js).Path es out)
    (hset : ∀ clients, ⟨.getClients, clients⟩ ∈ es → clients.Nodup) :
    (∀ n, ⟨.insertDeletion n, ()⟩ ∈ es → none ∈ replies n es) ↔
      Fits js es ∧ ∀ n, ¬ CutShort (replies n es) := by
  obtain ⟨cur, ⟨-, rfl, -⟩ | ⟨w, clients, es, hw, rfl, hb⟩⟩ := path_resolveBroadcast_iff.mp h
  · exact ⟨fun _ => ⟨fun _ _ _ _ _ hc => absurd hc (by simp), fun n => by simp [replies, CutShort]⟩,
      fun _ n hn => absurd hn (by simp)⟩
  · have hnodup : clients.Nodup := hset clients (by simp)
    rcases Prog.path_bind_iff.mp hb with ⟨es₁, failed, es₂, rfl, h₁, h₂⟩ | ⟨e, -, he⟩
    · obtain ⟨failed', hf', hall⟩ := path_broadcast h₁ hnodup
      cases hf'
      obtain rfl := path_insertAll h₂
      have hsends := h₁.all (sendsTo_broadcast clients)
      have hans : ∀ n, replies n (⟨.getCurMsgs, cur⟩ :: ⟨.getClients, clients⟩ ::
          (es₁ ++ failed.map fun n => ⟨.insertDeletion n, ()⟩)) = replies n es₁ := by
        intro n
        have htail : replies n (failed.map fun n => ⟨.insertDeletion n, ()⟩) = [] := by
          refine List.filterMap_eq_nil_iff.mpr fun e he => ?_
          obtain ⟨m, -, rfl⟩ := List.mem_map.mp he
          rfl
        rw [← List.append_nil (replies n es₁), ← htail, ← replies_append]
        rfl
      have hins : ∀ n, ⟨.insertDeletion n, ()⟩ ∈ (⟨.getCurMsgs, cur⟩ :: ⟨.getClients, clients⟩ ::
          (es₁ ++ failed.map fun n => ⟨.insertDeletion n, ()⟩) : Hist sig) ↔ n ∈ failed := by
        intro n
        constructor
        · intro hn
          rcases List.mem_cons.mp hn with hn | hn
          · cases hn
          rcases List.mem_cons.mp hn with hn | hn
          · cases hn
          rcases List.mem_append.mp hn with hn | hn
          · exact (hsends _ hn).elim
          · obtain ⟨m, hm, heq⟩ := List.mem_map.mp hn
            cases heq
            exact hm
        · intro hn
          refine List.mem_cons_of_mem _ (List.mem_cons_of_mem _ (List.mem_append_right _ ?_))
          exact List.mem_map.mpr ⟨n, hn, rfl⟩
      have hfits : Fits js (⟨.getCurMsgs, cur⟩ :: ⟨.getClients, clients⟩ ::
          (es₁ ++ failed.map fun n => ⟨.insertDeletion n, ()⟩)) ↔
          (clients ≠ [] → w.length % 2 ^ 32 ≤ maxFrameSize) := by
        constructor
        · intro hF hne
          exact hF cur w clients List.mem_cons_self hw (by simp) hne
        · intro hF cur' w' clients' hc hw' hcl hne
          obtain ⟨rfl, rfl⟩ := ask_once hsends hc hcl
          rw [hw] at hw'
          cases hw'
          exact hF hne
      rw [hfits]
      simp only [hins, hans]
      constructor
      · intro hevict
        refine ⟨fun hne => ?_, fun n hcut => ?_⟩
        · -- a window that is too long fails for every client, without a `send`
          by_contra hbig
          obtain ⟨n, hn⟩ := List.exists_mem_of_ne_nil clients hne
          obtain ⟨es', o, hp, ha, hiff⟩ := (hall n).2 hn
          obtain ⟨rfl, he⟩ := (path_sendFrame_replies hp).1 (Nat.not_le.mp hbig)
          have hnone := hevict n (hiff.mpr he)
          rw [← replies_toward, ha] at hnone
          simp [replies] at hnone
        · have hn : n ∈ clients := by
            by_contra hn
            rw [← replies_toward, toward_sendsTo hsends hn] at hcut
            simp [replies, CutShort] at hcut
          obtain ⟨es', o, hp, ha, hiff⟩ := (hall n).2 hn
          rw [← replies_toward, ha] at hcut
          by_cases hbig : maxFrameSize < w.length % 2 ^ 32
          · obtain ⟨rfl, -⟩ := (path_sendFrame_replies hp).1 hbig
            simp [replies, CutShort] at hcut
          · rcases (path_sendFrame_replies hp).2 (Nat.not_lt.mp hbig) with ⟨-, -, hno⟩ | ⟨he, hwhy⟩
            · exact hno hcut
            · have hnone := hevict n (hiff.mpr he)
              rw [← replies_toward, ha] at hnone
              exact hwhy.mp hnone hcut
      · rintro ⟨hfit, hcut⟩ n hn
        have hmem : n ∈ clients := by
          by_contra h'
          exact (hall n).1 h' hn
        obtain ⟨es', o, hp, ha, hiff⟩ := (hall n).2 hmem
        have hsize := hfit (List.ne_nil_of_mem hmem)
        rcases (path_sendFrame_replies hp).2 hsize with ⟨rfl, -⟩ | ⟨-, hwhy⟩
        · obtain ⟨e, he⟩ := hiff.mp hn
          cases he
        · have hno := hcut n
          rw [← replies_toward, ha] at hno ⊢
          exact hwhy.mpr hno
    · obtain ⟨_, h', -⟩ := path_broadcast he hnodup
      cases h'

/-- The message of a client called `ann` that says `hi`. -/
def hiMessage : MessageReqDto :=
  { type := .user, text := ascii "hi", timestamp := 3, userName := ascii "ann", channelId := 0 }

/-- One message for two clients: the first one's socket is closed on the other side, the second takes the window in two
pieces. -/
theorem evicted_by_broadcast_hi : ∃ es, (resolveBroadcast FlatJson.js).Path es (.ok ()) ∧
    ⟨.getCurMsgs, [(3, 5, hiMessage)]⟩ ∈ es ∧ ⟨.getClients, [5, 6]⟩ ∈ es ∧ ⟨.insertDeletion 5, ()⟩ ∈ es ∧
    ∀ n, ⟨.insertDeletion n, ()⟩ ∈ es → none ∈ replies n es := by
  let w : Bytes := ascii "[\x7b\"type\": \"user\", \"user_name\": \"ann\", \"event\": \"hi\", \"timestamp\": 3\x7d]"
  let es : Hist sig := [⟨.getCurMsgs, [(3, 5, hiMessage)]⟩, ⟨.getClients, [5, 6]⟩, ⟨.send 5 (ascii "0045"), none⟩,
    ⟨.send 6 (ascii "0045"), some 4⟩, ⟨.send 6 w, some 10⟩, ⟨.send 6 (w.drop 10), some 59⟩, ⟨.insertDeletion 5, ()⟩]
  have hwindow : window FlatJson.js [(3, 5, hiMessage)] = some w := by decide +kernel
  have hpath : (resolveBroadcast FlatJson.js).Path es (.ok ()) := Prog.path_of_replay (by decide +kernel)
  refine ⟨es, hpath, by simp [es], by simp [es], by simp [es],
    (evicted_by_broadcast_iff FlatJson.js es _ hpath ?_).mpr ⟨?_, fun n => ?_⟩⟩
  · intro clients hc
    obtain rfl : clients = [5, 6] := by simpa [es] using hc
    decide
  · intro cur w' clients hcur hw _ _
    obtain rfl : cur = [(3, 5, hiMessage)] := by simpa [es] using hcur
    obtain rfl := Option.some.inj (hwindow.symm.trans hw)
    decide
  · by_cases h5 : (5 : Fd) = n
    · subst h5
      simp [es, replies, CutShort]
    · by_cases h6 : (6 : Fd) = n
      · subst h6
        simp [es, replies, CutShort]
      · simp [es, replies, h5, h6, CutShort]

/-! ## Too many messages -/

/-- A name that an accepted join request of the lobby registers. -/
def Registered (js : Jansson) (name : Bytes) : Prop :=
  ∃ f target root c ts, f.length ≤ maxFrameSize ∧ requestOf js f = some (target, root) ∧
    isJoin target = true ∧ unpackLobbyJoin js root = some (c, ts, name)

/-- A message that a channel makes of an accepted frame. -/
def Requested (js : Jansson) (m : MessageReqDto) : Prop :=
  ∃ f target root text ts name, f.length ≤ maxFrameSize ∧ requestOf js f = some (target, root) ∧
    isMessage target = true ∧ unpackMessage js root = some (text, ts) ∧ Registered js name ∧
    m = { type := .user, text, timestamp := ts, userName := name, channelId := 0 }

theorem length_intercalate (sep : Bytes) : ∀ l : List Bytes, (sep.intercalate l).length =
    (l.map List.length).sum + sep.length * (l.length - 1)
  | [] => by simp [List.intercalate]
  | [x] => by simp [List.intercalate]
  | x :: y :: l => by
    have ih := length_intercalate sep (y :: l)
    have hcons : sep.intercalate (x :: y :: l) = x ++ sep ++ sep.intercalate (y :: l) := by
      simp [List.intercalate]
    rw [hcons, List.length_append, List.length_append, ih]
    simp only [List.map_cons, List.sum_cons, List.length_cons, Nat.add_sub_cancel]
    rw [Nat.mul_add, Nat.mul_one]
    omega

/-- With one client and a window that is too long, nothing is sent and the client is evicted. -/
theorem path_tooLong {cur : List (Msec64 × Fd × MessageReqDto)} {w : Bytes} {n : Fd}
    (hw : window js cur = some w) (hbig : maxFrameSize < w.length % 2 ^ 32) :
    (resolveBroadcast js).Path [⟨.getCurMsgs, cur⟩, ⟨.getClients, [n]⟩, ⟨.insertDeletion n, ()⟩]
      (.ok ()) := by
  have hfail : sendFrame n w = .raise .sendTooLarge := by
    unfold sendFrame
    rw [if_neg (by omega), if_pos hbig]
    rfl
  have hall : (broadcast w [n]).Path [] (.ok [n]) := by
    unfold broadcast
    rw [hfail]
    exact .ret [n]
  exact path_resolveBroadcast_iff.mpr
    ⟨cur, .inr ⟨w, [n], _, hw, rfl, hall.bind (.act (.ret ()))⟩⟩

theorem dumpArray_flatJson (l : List FlatJson.Members) : FlatJson.js.dumpArray l =
    some (91 :: (ascii ", ").intercalate (l.map FlatJson.dumpObject) ++ [93]) := rfl

/-- Three hundred short messages in one tick: the window has more than 16384 bytes, and a client is
evicted to which nothing was sent. -/
theorem evicted_unsent : ∃ cur es, (∀ q ∈ cur, Requested FlatJson.js q.2.2) ∧
    (resolveBroadcast FlatJson.js).Path (⟨.getCurMsgs, cur⟩ :: ⟨.getClients, [5]⟩ :: es) (.ok ()) ∧
    ⟨.insertDeletion 5, ()⟩ ∈ es ∧ replies 5 es = [] := by
  have hname : Registered FlatJson.js (ascii "ann") :=
    ⟨(joinFrame 1).drop 4, _, _, 1, 1, by decide, rfl, by decide, by decide⟩
  have hmsg : Requested FlatJson.js hiMessage :=
    ⟨messageFrame.drop 4, _, _, ascii "hi", 3, ascii "ann", by decide, rfl, by decide, by decide,
      hname, rfl⟩
  have hentry : (FlatJson.dumpObject (windowEntry 3 hiMessage)).length = 67 := by decide
  have hpack : (List.replicate 300 ((3 : Msec64), (5 : Fd), hiMessage)).filterMap
      (fun q => FlatJson.js.pack (windowEntry q.1 q.2.2)) =
        List.replicate 300 (windowEntry 3 hiMessage) := List.filterMap_replicate_of_some rfl
  have hw : window FlatJson.js (List.replicate 300 (3, 5, hiMessage)) = some (91 ::
      (ascii ", ").intercalate (List.replicate 300 (FlatJson.dumpObject (windowEntry 3 hiMessage))) ++
        [93]) := by
    rw [window, hpack, dumpArray_flatJson, List.map_replicate]
  refine ⟨_, _, ?_, path_tooLong hw ?_, by simp, by simp [replies]⟩
  · intro q hq
    rw [(List.mem_replicate.mp hq).2]
    exact hmsg
  · simp only [List.length_append, List.length_cons, List.length_nil, length_intercalate,
      List.map_replicate, hentry, List.sum_replicate_nat, List.length_replicate]
    decide

end ChatChannel
