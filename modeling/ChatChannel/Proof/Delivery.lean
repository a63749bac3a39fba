import ChatChannel.Proof.Alphabet
import ChatChannel.Proof.RoundTrip

/-!
# Frames before an error

`on_recv` dispatches what one call of `recv_frame` returned, and `recv_frame` reports a bad header or
the end of the stream by an exception, which takes the frames that were decoded before it in the same
call along. So it depends on the reads which frames of a stream reach `on_frame`: all of them exactly
if the last of them was read in an earlier call than the error, and no `on_frame` before it raised.
-/

set_option autoImplicit false

namespace ChatChannel

open Conc Incremental

variable {P : Params} {v : Srv} {n : Fd}

/-! ## Calls of `on_recv` -/

/-- The frames of `n` that `on_frame` was called for. -/
def dispatched (n : Fd) (es : Hist sig) : List Bytes :=
  es.filterMap fun e =>
    match e with
    | ⟨.onFrame m f, _⟩ => if m = n then some f else none
    | _ => none

/-- `n` was not inserted into `next_deletion`. -/
def Spared (n : Fd) (es : Hist sig) : Prop := ∀ e ∈ es, e.1 ≠ .insertDeletion n

/-- Before `n` was first inserted into `next_deletion`, `on_frame` was called for `ps`, in order. -/
def Delivered (n : Fd) (ps : List Bytes) (es : Hist sig) : Prop :=
  ∃ es₁ es₂, es = es₁ ++ ⟨.insertDeletion n, ()⟩ :: es₂ ∧ Spared n es₁ ∧ dispatched n es₁ = ps

/-- The end of `on_recv`. -/
def closing (n : Fd) : Except Err Unit → Hist sig
  | .ok _ => [⟨.endRecv, ()⟩]
  | .error _ => [⟨.endRecv, ()⟩, ⟨.insertDeletion n, ()⟩]

/-- A call of `on_recv`, with the outcomes of the calls of `on_frame` in it. -/
inductive Receives (P : Params) (v : Srv) (n : Fd) : Hist sig → List (Except Err Unit) → Prop
  | refused {es : Hist sig} {e : Err} : (recvFrame P n).Path es (.error e) →
      Receives P v n (es ++ closing n (.error e)) []
  | returned {es : Hist sig} {frames : List Bytes} {rs : List (Hist sig × Except Err Unit)} :
      (recvFrame P n).Path es (.ok frames) → Prog.Rounds (onFrame P v n) frames rs →
      Receives P v n (es ++ (rs.flatMap Prod.fst ++ closing n (Prog.ending rs))) (rs.map Prod.snd)

/-- Consecutive calls of `on_recv` take the buffer of `n` from `acc` to `left`. -/
inductive Session (P : Params) (v : Srv) (n : Fd) :
    Bytes → List (Hist sig × List (Except Err Unit)) → Bytes → Prop
  | nil (acc : Bytes) : Session P v n acc [] acc
  | cons {acc acc₁ left : Bytes} {es : Hist sig} {os : List (Except Err Unit)}
      {calls : List (Hist sig × List (Except Err Unit))} :
      Receives P v n es os → Reads n acc es acc₁ → Session P v n acc₁ calls left →
      Session P v n acc ((es, os) :: calls) left

theorem path_onRecv_iff {es : Hist sig} {out : Except Err Unit} :
    (onRecv P v n).Path es out ↔ out = .ok () ∧ ∃ os, Receives P v n es os := by
  have hclose : ∀ {es : Hist sig} {out : Except Err Unit},
      (call .endRecv : Code Unit).Path es out ↔ es = [⟨.endRecv, ()⟩] ∧ out = .ok () := by
    intro es out
    constructor
    · intro h
      obtain ⟨r, es', rfl, hk⟩ := Prog.path_act_iff.mp h
      obtain ⟨rfl, rfl⟩ := Prog.path_ret_iff.mp hk
      exact ⟨rfl, rfl⟩
    · rintro ⟨rfl, rfl⟩
      exact .act (.ret ())
  have hcatch : ∀ {es : Hist sig} {out : Except Err Unit} (e : Err),
      (do call .endRecv; call (.insertDeletion n) : Code Unit).Path es out ↔
        es = closing n (.error e) ∧ out = .ok () := by
    intro es out e
    constructor
    · intro h
      obtain ⟨r, es₁, rfl, h₁⟩ := Prog.path_act_iff.mp h
      obtain ⟨r', es₂, rfl, h₂⟩ := Prog.path_act_iff.mp h₁
      obtain ⟨rfl, rfl⟩ := Prog.path_ret_iff.mp h₂
      exact ⟨rfl, rfl⟩
    · rintro ⟨rfl, rfl⟩
      exact .act (.act (.ret ()))
  constructor
  · intro h
    rcases Prog.path_handle_iff.mp h with ⟨u, rfl, hbody⟩ | ⟨es₁, e, es₂, rfl, hbody, hk⟩
    · rcases Prog.path_bind_iff.mp hbody with ⟨es₁, frames, es₂, rfl, h₁, h₂⟩ | ⟨e, he, -⟩
      · rcases Prog.path_bind_iff.mp h₂ with ⟨es₃, u', es₄, rfl, h₃, h₄⟩ | ⟨e, he, -⟩
        · obtain ⟨rs, hr, rfl, hout⟩ := Prog.path_forEach_iff.mp h₃
          obtain ⟨rfl, -⟩ := hclose.mp h₄
          refine ⟨rfl, rs.map Prod.snd, ?_⟩
          have hrec := Receives.returned h₁ hr
          rwa [← hout] at hrec
        · cases he
      · cases he
    · obtain ⟨rfl, rfl⟩ := (hcatch e).mp hk
      refine ⟨rfl, ?_⟩
      rcases Prog.path_bind_iff.mp hbody with ⟨es₁, frames, es₂, rfl, h₁, h₂⟩ | ⟨e', he, hrecv⟩
      · rcases Prog.path_bind_iff.mp h₂ with ⟨es₃, u', es₄, rfl, h₃, h₄⟩ | ⟨e', he, hloop⟩
        · cases (hclose.mp h₄).2
        · obtain ⟨rs, hr, rfl, hout⟩ := Prog.path_forEach_iff.mp hloop
          have hrec := Receives.returned h₁ hr
          rw [← hout, ← List.append_assoc] at hrec
          exact ⟨_, hrec⟩
      · cases he
        exact ⟨[], .refused hrecv⟩
  · rintro ⟨rfl, os, h⟩
    refine Prog.path_handle_iff.mpr ?_
    cases h with
    | @refused es e h => exact .inr ⟨es, e, _, rfl, h.bind_error, (hcatch e).mpr ⟨rfl, rfl⟩⟩
    | @returned es frames rs h hr =>
      have hloop : (Prog.forEach (onFrame P v n) frames).Path (rs.flatMap Prod.fst)
          (Prog.ending rs) := Prog.path_forEach_iff.mpr ⟨rs, hr, rfl, rfl⟩
      cases hend : Prog.ending rs with
      | ok u =>
        rw [hend] at hloop
        exact .inl ⟨(), rfl, h.bind (hloop.bind (hclose.mpr ⟨rfl, rfl⟩))⟩
      | error e =>
        rw [hend] at hloop
        rw [← List.append_assoc]
        exact .inr ⟨_, e, _, rfl, h.bind hloop.bind_error, (hcatch e).mpr ⟨rfl, rfl⟩⟩

/-! ## What the handlers leave alone -/

theorem dispatched_append (n : Fd) (es es' : Hist sig) :
    dispatched n (es ++ es') = dispatched n es ++ dispatched n es' := List.filterMap_append

theorem spared_append {es es' : Hist sig} (h : Spared n es) (h' : Spared n es') :
    Spared n (es ++ es') := by
  intro e he
  exact (List.mem_append.mp he).elim (h e) (h' e)

/-- The calls of `on_frame`, of the requests and of the end of `on_recv`. -/
def Dispatching (n : Fd) : Act → Prop
  | .onFrame m _ => m = n
  | .endRecv => True
  | a => Requesting a

theorem Requesting.dispatching {a : Act} (ha : Requesting a) : Dispatching n a := by
  cases a <;> first | exact ha | exact ha.elim

/-- No such call reads from the connection or changes its buffer. -/
theorem dispatching_reads {es : Hist sig} (hes : ∀ e ∈ es, Dispatching n e.1) :
    received n es = [] ∧ Spared n es ∧ Open n es ∧
      ∀ acc acc', Reads n acc es acc' → acc' = acc := by
  induction es with
  | nil =>
    refine ⟨rfl, by simp [Spared], by simp [Open], fun acc acc' h => ?_⟩
    cases h
    rfl
  | cons e es ih =>
    obtain ⟨hrec, hspared, hopen, hreads⟩ := ih fun e' he' => hes e' (List.mem_cons_of_mem e he')
    have he := hes e List.mem_cons_self
    obtain ⟨a, r⟩ := e
    have hother : receivedBy n ⟨a, r⟩ = [] ∧ a ≠ .insertDeletion n ∧ a ≠ .recv n ∧
        ∀ acc acc', ReadStep n acc ⟨a, r⟩ acc' → acc' = acc := by
      cases a <;> first
        | exact he.elim
        | exact ⟨rfl, by simp, by simp, fun acc acc' h => h.elim⟩
        | exact ⟨rfl, by simp, by simp, fun acc acc' h => h⟩
    obtain ⟨hr, hdel, hrecv, hstep⟩ := hother
    refine ⟨by rw [received_cons, hr, hrec]; rfl, ?_, ?_, fun acc acc' h => ?_⟩
    · intro e' he'
      rcases List.mem_cons.mp he' with rfl | he'
      · exact hdel
      · exact hspared e' he'
    · intro r' hr'
      rcases List.mem_cons.mp hr' with heq | hr'
      · cases heq
        exact absurd rfl hrecv
      · exact hopen r' hr'
    · cases h with
      | cons hs h => rw [hreads _ _ h, hstep _ _ hs]

theorem requesting_dispatched {es : Hist sig} (hes : ∀ e ∈ es, Requesting e.1) :
    dispatched n es = [] := by
  refine List.filterMap_eq_nil_iff.mpr fun e he => ?_
  have ha := hes e he
  obtain ⟨a, r⟩ := e
  cases a <;> first | rfl | exact ha.elim

theorem path_onFrame {f : Bytes} {es : Hist sig} {out : Except Err Unit}
    (h : (onFrame P v n f).Path es out) :
    (∀ e ∈ es, Dispatching n e.1) ∧ dispatched n es = [f] := by
  obtain ⟨r, rest, rfl, hk⟩ := Prog.path_act_iff.mp h
  have hall : ∀ e ∈ rest, Requesting e.1 := by
    rw [Prog.bind_ret] at hk
    cases hreq : requestOf P.js f with
    | none =>
      rw [hreq] at hk
      obtain ⟨rfl, -⟩ := Prog.path_ret_iff.mp hk
      simp
    | some q =>
      rw [hreq] at hk
      cases v with
      | lobby => exact hk.all (requesting_lobbyOnReq P n q.1 q.2)
      | chan c => exact hk.all (requesting_channelOnReq P.js c n q.1 q.2)
  constructor
  · intro e he
    rcases List.mem_cons.mp he with rfl | he
    · rfl
    · exact (hall e he).dispatching
  · show dispatched n ([⟨.onFrame n f, r⟩] ++ rest) = [f]
    rw [dispatched_append, requesting_dispatched hall]
    simp [dispatched]

theorem rounds_onFrame {frames : List Bytes} {rs : List (Hist sig × Except Err Unit)}
    (h : Prog.Rounds (onFrame P v n) frames rs) :
    (∀ e ∈ rs.flatMap Prod.fst, Dispatching n e.1) ∧
      dispatched n (rs.flatMap Prod.fst) = frames.take rs.length := by
  induction h with
  | nil => simp [dispatched]
  | next hp _ ih =>
    obtain ⟨hserve, hdisp⟩ := path_onFrame hp
    rw [List.flatMap_cons, dispatched_append, hdisp, ih.2]
    refine ⟨fun e he => ?_, rfl⟩
    exact (List.mem_append.mp he).elim (hserve e) (ih.1 e)
  | raised hp =>
    obtain ⟨hserve, hdisp⟩ := path_onFrame hp
    rw [List.flatMap_singleton]
    exact ⟨hserve, hdisp⟩

/-- `recv_frame` neither dispatches nor schedules. -/
theorem path_recvFrame_spared {es : Hist sig} {out : Except Err (List Bytes)}
    (h : (recvFrame P n).Path es out) : Spared n es ∧ dispatched n es = [] := by
  have hes := h.all (fromWire_recvFrame P n)
  constructor
  · rintro ⟨a, r⟩ he rfl
    exact hes _ he
  · refine List.filterMap_eq_nil_iff.mpr fun e he => ?_
    have ha := hes e he
    obtain ⟨a, r⟩ := e
    cases a <;> first | rfl | exact ha.elim

/-! ## One call of `on_recv` -/

/-- Of the frames `ys` all were dispatched and nothing went wrong. -/
def Served (n : Fd) (ys : List Bytes) (es : Hist sig) (os : List (Except Err Unit)) : Prop :=
  dispatched n es = ys ∧ Spared n es ∧ os.length = ys.length ∧ ∀ o ∈ os, o = .ok ()

/-- An `on_frame` for one of the frames `ys` raised, and the connection was scheduled for deletion
then. -/
def Stopped (n : Fd) (ys : List Bytes) (es : Hist sig) (os : List (Except Err Unit)) : Prop :=
  ∃ es₁ es₂ os₁ e os₂, es = es₁ ++ ⟨.insertDeletion n, ()⟩ :: es₂ ∧ Spared n es₁ ∧
    os = os₁ ++ .error e :: os₂ ∧ (∀ o ∈ os₁, o = .ok ()) ∧ os₁.length < ys.length ∧
    dispatched n es₁ = ys.take (os₁.length + 1)

theorem dispatching_closing (n : Fd) (u : Unit) : ∀ e ∈ closing n (.ok u), Dispatching n e.1 := by
  intro e he
  rw [List.mem_singleton.mp he]
  trivial

theorem reads_closing {o : Except Err Unit} {acc acc' : Bytes} (h : Reads n acc (closing n o) acc') :
    acc' = acc := by
  cases o with
  | ok u =>
    cases h with
    | cons hs h =>
      cases h
      exact hs
  | error e =>
    cases h with
    | cons hs h =>
      cases h with
      | cons hs' h =>
        cases h
        exact hs'.trans hs

/-- A call that was not told of an end of the stream, and whose decoding went well. -/
theorem Receives.of_drains {es : Hist sig} {os : List (Except Err Unit)} {acc acc₁ t : Bytes}
    {ys : List Bytes} (h : Receives P v n es os) (hr : Reads n acc es acc₁) (hopen : Open n es)
    (hd : Drains look (acc ++ received n es) ys none t) :
    acc₁ = t ∧ (Served n ys es os ∨ Stopped n ys es os) := by
  have hsub : ∀ {es₁ es₂ : Hist sig}, Open n (es₁ ++ es₂) → Open n es₁ :=
    fun ho r hmem => ho r (List.mem_append_left _ hmem)
  cases h with
  | @refused es e hpath =>
    obtain ⟨acc₂, hr₁, -⟩ := reads_append.mp hr
    have hrec : received n (es ++ closing n (.error e)) = received n es := by
      rw [received_append]
      simp [closing, received, receivedBy]
    obtain ⟨-, hout⟩ := path_recvFrame hpath hr₁ (hsub hopen)
    rw [hrec] at hd
    rw [decodeFrames_of_drains hd] at hout
    cases hout
  | @returned es frames rs hpath hrounds =>
    obtain ⟨acc₂, hr₁, hr₂⟩ := reads_append.mp hr
    obtain ⟨acc₃, hr₂, hr₃⟩ := reads_append.mp hr₂
    obtain ⟨hserve, hdisp⟩ := rounds_onFrame hrounds
    obtain ⟨hrec, hspared, -, hkeep⟩ := dispatching_reads hserve
    obtain ⟨hspared₀, hdisp₀⟩ := path_recvFrame_spared hpath
    have hrec' : received n (es ++ (rs.flatMap Prod.fst ++ closing n (Prog.ending rs))) =
        received n es := by
      rw [received_append, received_append, hrec]
      cases Prog.ending rs <;> simp [closing, received, receivedBy]
    obtain ⟨hacc, hout⟩ := path_recvFrame hpath hr₁ (hsub hopen)
    rw [hrec'] at hd
    rw [decodeFrames_of_drains hd] at hacc hout
    obtain rfl : frames = ys := by
      cases hout
      rfl
    refine ⟨by rw [reads_closing hr₃, hkeep _ _ hr₂, ← hacc], ?_⟩
    rcases hrounds.ended with ⟨hok, hlen, hall⟩ | ⟨rs', es', e, rfl, hall, herr, hlen⟩
    · rw [hok]
      have hclose := dispatching_reads (dispatching_closing n ())
      refine .inl ⟨?_, ?_, by simpa using hlen, ?_⟩
      · rw [dispatched_append, dispatched_append, hdisp₀, hdisp, hlen, List.take_length]
        simp [closing, dispatched]
      · exact spared_append hspared₀ (spared_append hspared hclose.2.1)
      · intro o ho
        obtain ⟨r, hr, rfl⟩ := List.mem_map.mp ho
        exact hall r hr
    · rw [List.length_append, List.length_singleton] at hlen
      rw [herr]
      refine .inr ⟨es ++ ((rs' ++ [(es', Except.error e)]).flatMap Prod.fst ++ [⟨.endRecv, ()⟩]), [],
        rs'.map Prod.snd, e, [], by simp [closing], ?_, List.map_append, ?_,
        by rw [List.length_map]; exact hlen, ?_⟩
      · exact spared_append hspared₀ (spared_append hspared (by simp [Spared]))
      · intro o ho
        obtain ⟨r, hr, rfl⟩ := List.mem_map.mp ho
        exact hall r hr
      · rw [dispatched_append, dispatched_append, hdisp₀, hdisp]
        simp [dispatched]

theorem open_of_recvFrame {es : Hist sig} {frames : List Bytes} {acc acc' : Bytes}
    (h : (recvFrame P n).Path es (.ok frames)) (hr : Reads n acc es acc') : Open n es := by
  rcases Prog.path_bind_iff.mp h with ⟨es₁, u, es₂, rfl, h₁, h₂⟩ | ⟨e, he, -⟩
  · obtain ⟨acc₁, hr₁, -⟩ := reads_append.mp hr
    obtain ⟨-, ⟨-, hopen⟩ | ⟨⟨e, he⟩, -⟩⟩ := path_recvLoop h₁ hr₁
    · obtain ⟨r, es₃, rfl, hk⟩ := Prog.path_act_iff.mp h₂
      obtain rfl : es₃ = [] := by
        rw [Prog.bind_ret] at hk
        cases r with
        | ok frames => exact (Prog.path_ret_iff.mp hk).1
        | error e => exact (Prog.path_raise_iff.mp hk).1
      intro r' hr'
      rcases List.mem_append.mp hr' with hr' | hr'
      · exact hopen r' hr'
      · cases List.mem_singleton.mp hr'
    · cases he
  · cases he

/-- A call that was told of the end of the stream, or found a bad header, dispatches nothing. -/
theorem Receives.failed {es : Hist sig} {os : List (Except Err Unit)} {acc acc₁ : Bytes}
    (h : Receives P v n es os) (hr : Reads n acc es acc₁)
    (hbad : ⟨.recv n, .fin⟩ ∈ es ∨
      Open n es ∧ ∃ ys e t, Drains look (acc ++ received n es) ys (some e) t) :
    ∃ es₁, es = es₁ ++ [⟨.insertDeletion n, ()⟩] ∧ Spared n es₁ ∧ dispatched n es₁ = [] := by
  cases h with
  | @refused es e hpath =>
    obtain ⟨hspared, hdisp⟩ := path_recvFrame_spared hpath
    refine ⟨es ++ [⟨.endRecv, ()⟩], by simp [closing], ?_, ?_⟩
    · exact spared_append hspared (by simp [Spared])
    · rw [dispatched_append, hdisp]
      rfl
  | @returned es frames rs hpath hrounds =>
    exfalso
    obtain ⟨acc₂, hr₁, -⟩ := reads_append.mp hr
    have hopen := open_of_recvFrame hpath hr₁
    obtain ⟨hrec, -, hopen', -⟩ := dispatching_reads (rounds_onFrame hrounds).1
    rcases hbad with hfin | ⟨-, ys, e, t, hd⟩
    · rcases List.mem_append.mp hfin with hfin | hfin
      · exact absurd rfl (hopen _ hfin).1
      · rcases List.mem_append.mp hfin with hfin | hfin
        · exact absurd rfl (hopen' _ hfin).1
        · cases hb : Prog.ending rs <;> simp [hb, closing] at hfin
    · have hrec' : received n (es ++ (rs.flatMap Prod.fst ++ closing n (Prog.ending rs))) =
          received n es := by
        rw [received_append, received_append, hrec]
        cases Prog.ending rs <;> simp [closing, received, receivedBy]
      obtain ⟨-, hout⟩ := path_recvFrame hpath hr₁ hopen
      rw [hrec'] at hd
      rw [decodeFrames_of_drains hd] at hout
      cases hout

/-! ## Sessions -/

theorem Served.append {ys ys' : List Bytes} {es es' : Hist sig} {os os' : List (Except Err Unit)}
    (h : Served n ys es os) (h' : Served n ys' es' os') :
    Served n (ys ++ ys') (es ++ es') (os ++ os') := by
  obtain ⟨hdisp, hspared, hlen, hok⟩ := h
  obtain ⟨hdisp', hspared', hlen', hok'⟩ := h'
  refine ⟨by rw [dispatched_append, hdisp, hdisp'], spared_append hspared hspared', ?_, ?_⟩
  · rw [List.length_append, List.length_append, hlen, hlen']
  · intro o ho
    exact (List.mem_append.mp ho).elim (hok o) (hok' o)

theorem Served.stopped {ys ys' : List Bytes} {es es' : Hist sig} {os os' : List (Except Err Unit)}
    (h : Served n ys es os) (h' : Stopped n ys' es' os') :
    Stopped n (ys ++ ys') (es ++ es') (os ++ os') := by
  obtain ⟨hdisp, hspared, hlen, hok⟩ := h
  obtain ⟨es₁, es₂, os₁, e, os₂, rfl, hspared', rfl, hok', hlt, hdisp'⟩ := h'
  refine ⟨es ++ es₁, es₂, os ++ os₁, e, os₂, by simp, spared_append hspared hspared', by simp,
    ?_, ?_, ?_⟩
  · intro o ho
    exact (List.mem_append.mp ho).elim (hok o) (hok' o)
  · rw [List.length_append, List.length_append, hlen]
    omega
  · rw [dispatched_append, hdisp, hdisp', List.length_append, hlen, Nat.add_assoc,
      List.take_length_add_append]

theorem Stopped.append {ys : List Bytes} {es : Hist sig} {os : List (Except Err Unit)}
    (h : Stopped n ys es os) (ys' : List Bytes) (es' : Hist sig) (os' : List (Except Err Unit)) :
    Stopped n (ys ++ ys') (es ++ es') (os ++ os') := by
  obtain ⟨es₁, es₂, os₁, e, os₂, rfl, hspared, rfl, hok, hlt, hdisp⟩ := h
  refine ⟨es₁, es₂ ++ es', os₁, e, os₂ ++ os', by simp, hspared, by simp, hok, ?_, ?_⟩
  · rw [List.length_append]
    omega
  · rw [hdisp, List.take_append_of_le_length (by omega)]

/-- Calls of which none is told of an end of the stream and all decode well. -/
theorem Session.of_feeds {acc left left' : Bytes} {xss : List (List Bytes)}
    {calls : List (Hist sig × List (Except Err Unit))} (h : Session P v n acc calls left)
    (hopen : ∀ c ∈ calls, Open n c.1)
    (hf : Feeds look acc (calls.map fun c => received n c.1) xss left') :
    left = left' ∧ (Served n xss.flatten (calls.flatMap Prod.fst) (calls.flatMap Prod.snd) ∨
      Stopped n xss.flatten (calls.flatMap Prod.fst) (calls.flatMap Prod.snd)) := by
  induction h generalizing xss with
  | nil acc =>
    cases hf
    exact ⟨rfl, .inl ⟨rfl, by simp [Spared], rfl, by simp⟩⟩
  | cons hrec hreads _ ih =>
    cases hf with
    | cons hd hf =>
      obtain ⟨rfl, hfirst⟩ := hrec.of_drains hreads (hopen _ List.mem_cons_self) hd
      obtain ⟨rfl, hrest⟩ := ih (fun c hc => hopen c (List.mem_cons_of_mem _ hc)) hf
      refine ⟨rfl, ?_⟩
      rw [List.flatten_cons, List.flatMap_cons, List.flatMap_cons]
      rcases hfirst with hfirst | hfirst
      · exact hrest.imp hfirst.append hfirst.stopped
      · exact .inr (hfirst.append _ _ _)

/-! ## The end of the stream -/

/-- The call with the history `es`, made after `before` was read, meets the end of the stream of the
frames `ps`: a header that is no number or too large, and not known as a whole before, or a `recv`
that says so. -/
inductive Ends (n : Fd) (ps : List Bytes) (before : Bytes) (es : Hist sig) : Prop
  | badHeader {bad : Bytes} {e : FrameErr} : look bad = .fail e → Open n es →
      before ++ received n es = (ps.map encodeFrame).flatten ++ bad →
      before.length < (ps.map encodeFrame).flatten.length + 4 → Ends n ps before es
  | finished : ⟨.recv n, .fin⟩ ∈ es → before ++ received n es = (ps.map encodeFrame).flatten →
      Ends n ps before es

/-- What was read before the error are encodings with a tail that stalls. -/
theorem Ends.tail {ps : List Bytes} {before : Bytes} {es : Hist sig} (h : Ends n ps before es) :
    ∃ t more, Stalled look t ∧ before ++ more = (ps.map encodeFrame).flatten ++ t := by
  cases h with
  | @badHeader bad e hbad _ hsplit hlen =>
    have h4 : 4 ≤ bad.length := by
      by_contra h
      rw [look_of_short (by omega)] at hbad
      cases hbad
    refine ⟨bad.take 3, (((ps.map encodeFrame).flatten ++ bad.take 3).drop before.length), ?_, ?_⟩
    · intro s hs
      have := hs.length_le
      rw [List.length_take] at this
      exact look_of_short (by omega)
    · have hpre : before <+: (ps.map encodeFrame).flatten ++ bad.take 3 := by
        have hwhole : (ps.map encodeFrame).flatten ++ bad.take 3 <+:
            (ps.map encodeFrame).flatten ++ bad :=
          (List.prefix_append_right_inj _).mpr (List.take_prefix 3 bad)
        refine List.prefix_of_prefix_length_le ⟨_, hsplit⟩ hwhole ?_
        rw [List.length_append, List.length_take]
        omega
      obtain ⟨more, hmore⟩ := hpre
      rw [← hmore, List.drop_left]
  | finished _ hsplit =>
    refine ⟨[], received n es, ?_, by rw [List.append_nil, hsplit]⟩
    intro s hs
    rw [List.prefix_nil.mp hs]
    exact look_of_short (by simp)

/-- The first deletion is the first. -/
theorem delivered_iff {ps : List Bytes} {es₁ es₂ : Hist sig} (hspared : Spared n es₁) :
    Delivered n ps (es₁ ++ ⟨.insertDeletion n, ()⟩ :: es₂) ↔ dispatched n es₁ = ps := by
  constructor
  · rintro ⟨fs₁, fs₂, heq, hspared', hdisp⟩
    have hfirst : ∀ {as bs as' bs' : Hist sig}, Spared n as → Spared n as' →
        as ++ ⟨.insertDeletion n, ()⟩ :: bs = as' ++ ⟨.insertDeletion n, ()⟩ :: bs' → as = as' := by
      intro as
      induction as with
      | nil =>
        intro bs as' bs' _ hs' h
        cases as' with
        | nil => rfl
        | cons a as' =>
          obtain ⟨rfl, -⟩ := List.cons.inj h
          exact absurd rfl (hs' _ List.mem_cons_self)
      | cons a as ih =>
        intro bs as' bs' hs hs' h
        cases as' with
        | nil =>
          obtain ⟨rfl, -⟩ := List.cons.inj h
          exact absurd rfl (hs _ List.mem_cons_self)
        | cons a' as' =>
          obtain ⟨rfl, hrest⟩ := List.cons.inj h
          rw [ih (fun e he => hs e (List.mem_cons_of_mem _ he))
            (fun e he => hs' e (List.mem_cons_of_mem _ he)) hrest]
    rw [hfirst hspared hspared' heq]
    exact hdisp
  · exact fun h => ⟨es₁, es₂, rfl, hspared, h⟩

/-- **When the frames before an error are delivered.** A server reads a stream of complete frames and
then meets a bad header or the end of the stream: `on_frame` was called for every one of the frames, in
order, before the connection is scheduled for deletion, exactly if the frames were all read by
earlier calls of `on_recv` than the one that meets the error, and no `on_frame` but that of the last
frame raised in them. -/
theorem frames_delivered_iff (P : Params) (v : Srv) (n : Fd) (ps : List Bytes)
    (hps : ∀ p ∈ ps, 1 ≤ p.length ∧ p.length ≤ 16384)
    (calls : List (Hist sig × List (Except Err Unit))) (acc : Bytes)
    (hcalls : Session P v n [] calls acc) (hopen : ∀ c ∈ calls, Open n c.1)
    (es : Hist sig) (os : List (Except Err Unit)) (left : Bytes)
    (hlast : Receives P v n es os) (hreads : Reads n acc es left)
    (hend : Ends n ps (calls.flatMap fun c => received n c.1) es) :
    Delivered n ps (calls.flatMap Prod.fst ++ es) ↔
      (ps.map encodeFrame).flatten <+: (calls.flatMap fun c => received n c.1) ∧
        ∀ o ∈ (calls.flatMap Prod.snd).take (ps.length - 1), o = .ok () := by
  obtain ⟨t, more, ht, hsplit⟩ := hend.tail
  have hw : look [] = .wait := look_of_short (by simp)
  obtain ⟨ys, zs, t', rfl, hread, -, hrest, ht'⟩ := codec_look.drains_cut ht hps hsplit
  have hys : ∀ p ∈ ys, Sized p := fun p hp => hps p (List.mem_append_left zs hp)
  have hzs : ∀ p ∈ zs, Sized p := fun p hp => hps p (List.mem_append_right ys hp)
  -- the earlier calls return the frames `ys` and leave `t'`
  have hpieces : [] ++ (calls.map fun c => received n c.1).flatten =
      (ys.map encodeFrame).flatten ++ t' := by
    rw [List.nil_append, ← List.flatMap_def, hread]
  obtain ⟨xss, hfeeds, rfl⟩ := codec_look.feeds ht' _ ys [] hys hw hpieces
  obtain ⟨rfl, hserved⟩ := hcalls.of_feeds hopen hfeeds
  have hall : ((xss.flatten ++ zs).map encodeFrame).flatten <+:
      (calls.flatMap fun c => received n c.1) ↔ zs = [] := by
    rw [hread, List.map_append, List.flatten_append, List.prefix_append_right_inj]
    constructor
    · rintro ⟨u, hu⟩
      cases zs with
      | nil => rfl
      | cons z zs =>
        have hwait := ht'.waits
        rw [← hu, List.map_cons, List.flatten_cons, List.append_assoc,
          codec_look.item z _ (hzs z (by simp))] at hwait
        cases hwait
    · rintro rfl
      exact List.nil_prefix
  rw [hall]
  rcases hserved with ⟨hdisp, hspared, hlen, hok⟩ | ⟨es₁, es₂, os₁, e, os₂, heq, hspared, hos, hok, hlt, hdisp⟩
  · -- nothing went wrong before the last call, which dispatches nothing
    have hbad : ⟨.recv n, .fin⟩ ∈ es ∨
        Open n es ∧ ∃ ys e t, Drains look (acc ++ received n es) ys (some e) t := by
      cases hend with
      | finished hfin _ => exact .inl hfin
      | @badHeader bad e hbad hop hwhole _ =>
        refine .inr ⟨hop, zs, e, bad, ?_⟩
        rw [hread, List.map_append, List.flatten_append, List.append_assoc, List.append_assoc] at hwhole
        rw [List.append_cancel_left hwhole]
        have hdr := codec_look.drains (.fail hbad) zs hzs
        rwa [List.append_nil] at hdr
    obtain ⟨es₁, rfl, hspared₁, hdisp₁⟩ := hlast.failed hreads hbad
    rw [← List.append_assoc, delivered_iff (spared_append hspared hspared₁), dispatched_append, hdisp,
      hdisp₁, List.append_nil]
    constructor
    · intro h
      have hnil : zs = [] := by simpa using h
      exact ⟨hnil, fun o ho => hok o (List.mem_of_mem_take ho)⟩
    · rintro ⟨rfl, -⟩
      rw [List.append_nil]
  · -- an `on_frame` raised before the last call
    rw [heq, List.append_assoc, List.cons_append, delivered_iff hspared, hdisp, hos]
    constructor
    · intro h
      have hl := congrArg List.length h
      rw [List.length_take, List.length_append] at hl
      have hnil : zs = [] := List.length_eq_zero_iff.mp (by omega)
      have hle : xss.flatten.length - 1 ≤ os₁.length := by omega
      subst hnil
      refine ⟨rfl, fun o ho => hok o ?_⟩
      rw [List.append_nil, List.take_append_of_le_length hle] at ho
      exact List.mem_of_mem_take ho
    · rintro ⟨rfl, htake⟩
      rw [List.append_nil] at htake ⊢
      refine List.take_of_length_le ?_
      by_contra hshort
      have hmem : Except.error e ∈ (os₁ ++ .error e :: os₂).take (xss.flatten.length - 1) := by
        rw [List.take_append, List.mem_append]
        refine .inr ?_
        obtain ⟨k, hk⟩ : ∃ k, xss.flatten.length - 1 - os₁.length = k + 1 :=
          ⟨xss.flatten.length - 1 - os₁.length - 1, by omega⟩
        rw [hk]
        simp
      cases htake _ hmem

/-- A read that ends with the header `zzzz`. -/
theorem receives_refused (v : Srv) (acc b left : Bytes)
    (hd : decodeFrames (acc ++ b) = (.error .invalidHeader, left)) (hb : 1 ≤ b.length ∧ b.length < 4096) :
    Receives sample v 5 [⟨.recv 5, .chunk b⟩, ⟨.decode 5, .error .invalidHeader⟩, ⟨.endRecv, ()⟩,
        ⟨.insertDeletion 5, ()⟩] [] ∧
      Reads 5 acc [⟨.recv 5, .chunk b⟩, ⟨.decode 5, .error .invalidHeader⟩, ⟨.endRecv, ()⟩,
        ⟨.insertDeletion 5, ()⟩] left := by
  constructor
  · have hrecv : (recvFrame sample 5).Path [⟨.recv 5, .chunk b⟩, ⟨.decode 5, .error .invalidHeader⟩]
        (.error (.frame .invalidHeader)) := by
      refine .act ?_
      show (Prog.bind (if b.length < 4096 then Prog.ret () else recvLoop 5 3) _).Path _ _
      rw [if_pos hb.2]
      exact .act (.raise _)
    exact .refused hrecv
  · exact reads_chunk ⟨hb.1, by omega⟩ hd (.cons rfl (.cons rfl (.nil left)))

/-- A frame, and in the next read a header that is no number. -/
theorem frames_delivered_hi : Delivered 5 [ascii "hi"]
    [⟨.recv 5, .chunk (ascii "0002hi")⟩, ⟨.decode 5, .ok [ascii "hi"]⟩, ⟨.onFrame 5 (ascii "hi"), ()⟩,
      ⟨.endRecv, ()⟩, ⟨.recv 5, .chunk (ascii "zzzz")⟩, ⟨.decode 5, .error .invalidHeader⟩,
      ⟨.endRecv, ()⟩, ⟨.insertDeletion 5, ()⟩] := by
  have hrecv : (recvFrame sample 5).Path
      [⟨.recv 5, .chunk (ascii "0002hi")⟩, ⟨.decode 5, .ok [ascii "hi"]⟩] (.ok [ascii "hi"]) :=
    .act (.act (.ret _))
  have hserve : (onFrame sample (.chan 1) 5 (ascii "hi")).Path [⟨.onFrame 5 (ascii "hi"), ()⟩]
      (.ok ()) := .act (.ret ())
  have hfirst : Receives sample (.chan 1) 5 [⟨.recv 5, .chunk (ascii "0002hi")⟩,
      ⟨.decode 5, .ok [ascii "hi"]⟩, ⟨.onFrame 5 (ascii "hi"), ()⟩, ⟨.endRecv, ()⟩] [.ok ()] :=
    .returned hrecv (.next hserve .nil)
  have hread : Reads 5 [] [⟨.recv 5, .chunk (ascii "0002hi")⟩, ⟨.decode 5, .ok [ascii "hi"]⟩,
      ⟨.onFrame 5 (ascii "hi"), ()⟩, ⟨.endRecv, ()⟩] [] :=
    reads_chunk (by decide) (by decide) (.cons rfl (.cons rfl (.nil [])))
  obtain ⟨hlast, hreads⟩ := receives_refused (.chan 1) [] (ascii "zzzz") (ascii "zzzz")
    (by decide) (by decide)
  refine (frames_delivered_iff sample (.chan 1) 5 [ascii "hi"] (by decide) [(_, _)] [] (.cons hfirst
    hread (.nil [])) (by simp [Open]) _ _ _ hlast hreads
    (@Ends.badHeader 5 _ _ _ (ascii "zzzz") .invalidHeader ?_ ?_ ?_ ?_)).mpr ⟨?_, ?_⟩
  · exact look_of_invalid (by decide) (by decide)
  · simp [Open]
  · decide
  · decide
  · decide
  · simp

/-- The same bytes in one read: the frame is lost. -/
theorem frame_lost : ∃ es left, (onRecv sample (.chan 1) 5).Path es (.ok ()) ∧ Reads 5 [] es left ∧
    received 5 es = encodeFrame (ascii "hi") ++ ascii "zzzz" ∧ ¬ Delivered 5 [ascii "hi"] es := by
  obtain ⟨hlast, hreads⟩ := receives_refused (.chan 1) [] (ascii "0002hizzzz")
    (ascii "zzzz") (by decide) (by decide)
  refine ⟨_, _, path_onRecv_iff.mpr ⟨rfl, _, hlast⟩, hreads, by decide, ?_⟩
  have hspared : Spared 5 [⟨.recv 5, .chunk (ascii "0002hizzzz")⟩,
      ⟨.decode 5, .error .invalidHeader⟩, ⟨.endRecv, ()⟩] := by simp [Spared]
  rw [show ∀ (a b c d : Call sig), [a, b, c, d] = [a, b, c] ++ [d] from fun _ _ _ _ => rfl,
    delivered_iff hspared]
  decide

end ChatChannel
