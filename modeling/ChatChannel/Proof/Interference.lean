import ChatChannel.Proof.Broadcast
import ChatChannel.Proof.RoundTrip
import ChatChannel.Proof.Termination
import ChatChannel.Wire.Interleaving

/-!
# Two threads writing to one connection

The lobby tells a client that the channel it wants to move to is full while the client is still in a
channel that broadcasts to it. `send_frame` writes a frame with several calls and nothing keeps two
threads from taking turns: the frames arrive whole if each header goes out in one piece and no thread sends
while another one is in the middle of a frame, and, unless a payload looks like a header inside, only then.

That the headers must go out in one piece is a count of bytes: a frame that is given up leaves fewer bytes in
the stream than the payloads take, and the client takes every frame out of it whole.
-/

set_option autoImplicit false

namespace ChatChannel

open Conc Incremental Interleaving

variable {n : Fd} {t : Srv} {p : Bytes}

/-! ## Frames and their pieces -/

/-- A frame that a thread sends to `n`: the lobby's reply, or a channel's window. -/
inductive Speaks (n : Fd) : Srv → Bytes → Hist sig → Prop
  | reply {es : Hist sig} {out : Except Err Unit} : (sendFrame n channelFull).Path es out →
      Speaks n .lobby channelFull es
  | window {c : ChId} {p : Bytes} {clients : List Fd} {es : Hist sig}
      {out : Except Err (List Fd)} : (broadcast p clients).Path es out → clients.Nodup →
      n ∈ clients → Speaks n (.chan c) p es

/-- What the calls of a thread put on the wire of `n`, call by call. -/
def chunks (n : Fd) (es : Hist sig) : List Bytes := (es.map (writtenBy n)).filter (· ≠ [])

/-- The same for the calls of all threads. -/
def pieces (n : Fd) (es : List (Srv × Call sig)) : List (Srv × Bytes) :=
  (es.map fun e => (e.1, writtenBy n e.2)).filter fun q => q.2 ≠ []

/-- The stream a client gets. -/
def stream (n : Fd) (es : List (Srv × Call sig)) : Bytes :=
  (es.map fun e => writtenBy n e.2).flatten

/-- A frame in pieces: the header, then the payload in any number of parts. -/
def InPieces (p : Bytes) (ps : List Bytes) : Prop :=
  ps.flatten = encodeFrame p ∧ (∀ q ∈ ps, q ≠ []) ∧ ps.head? = some (hexHeader p.length)

/-- Whenever a thread sends to the connection, all others have sent whole frames so far. -/
def Undisturbed (n : Fd) (payloads : Srv → List Bytes) (es : List (Srv × Call sig)) : Prop :=
  Uninterrupted InPieces payloads (pieces n es)

/-- The client decodes an interleaving of the payloads, and nothing is left over. -/
def Whole (n : Fd) (payloads : Srv → List Bytes) (es : List (Srv × Call sig)) : Prop :=
  ∃ w : List (Srv × Bytes), (∀ t, of t w = payloads t) ∧
    Drains Client.look (stream n es) (w.map Prod.snd) none []

theorem pieces_inPieces : Pieces encodeFrame InPieces where
  flatten _ _ h := h.1
  nonempty _ _ h := h.2.1
  proper p h := by
    have hlen := congrArg List.length h
    rw [length_encodeFrame, List.length_nil] at hlen
    omega

theorem chunks_append (n : Fd) (es es' : Hist sig) :
    chunks n (es ++ es') = chunks n es ++ chunks n es' := by
  rw [chunks, List.map_append, List.filter_append]
  rfl

theorem flatten_chunks (n : Fd) (es : Hist sig) : (chunks n es).flatten = written n es := by
  rw [chunks, List.flatten_filter_ne_nil, written, List.flatMap_def]

theorem chunks_toward (n : Fd) (es : Hist sig) : chunks n (toward n es) = chunks n es := by
  induction es with
  | nil => rfl
  | cons e es ih =>
    have hcons : e :: es = [e] ++ es := rfl
    rw [hcons, toward_append, chunks_append, chunks_append, ih]
    congr 1
    obtain ⟨a, r⟩ := e
    cases a <;> first | rfl | skip
    rename_i m b
    by_cases hm : m = n <;> simp [toward, chunks, writtenBy, hm]

theorem of_pieces (t : Srv) (n : Fd) : ∀ es : List (Srv × Call sig),
    of t (pieces n es) = chunks n (of t es)
  | [] => rfl
  | (u, e) :: es => by
    have ih := of_pieces t n es
    have hcons : pieces n ((u, e) :: es) = pieces n [(u, e)] ++ pieces n es := by
      rw [pieces, pieces, pieces, ← List.filter_append]
      rfl
    rw [hcons, of_append, ih]
    by_cases hu : u = t
    · subst hu
      have hhead : of u (pieces n [(u, e)]) = chunks n [e] := by
        by_cases hw : writtenBy n e = [] <;> simp [pieces, chunks, hw]
      rw [hhead, of_cons_self, ← chunks_append]
      rfl
    · have hhead : of t (pieces n [(u, e)]) = [] := by
        by_cases hw : writtenBy n e = [] <;> simp [pieces, hw, of_cons_ne (Ne.symm hu)]
      rw [hhead, of_cons_ne (Ne.symm hu), List.nil_append]

theorem stream_pieces (n : Fd) (es : List (Srv × Call sig)) :
    stream n es = ((pieces n es).map Prod.snd).flatten := by
  have hmap : (pieces n es).map Prod.snd = (es.map fun e => writtenBy n e.2).filter (· ≠ []) := by
    rw [pieces, List.filter_map, List.filter_map, List.map_map]
    rfl
  rw [hmap, List.flatten_filter_ne_nil]
  rfl

theorem Speaks.toward {es : Hist sig} (h : Speaks n t p es) :
    ∃ out, (sendFrame n p).Path (toward n es) out := by
  cases h with
  | @reply es out hp =>
    have hes : ∀ e ∈ es, SendsTo [n] e.1 := hp.all (all_sendFrame (fun _ => List.mem_cons_self) _)
    rw [toward_self hes]
    exact ⟨out, hp⟩
  | window hp hnodup hn =>
    obtain ⟨failed, -, hall⟩ := path_broadcast hp hnodup
    obtain ⟨es', o, hpath, hto, -⟩ := (hall n).2 hn
    rw [hto]
    exact ⟨o, hpath⟩

/-- If no `send` to `n` fails or is cut short, the frame is sent in pieces. -/
theorem Speaks.inPieces {es : Hist sig} (h : Speaks n t p es) (hp : Sized p)
    (hsent : none ∉ replies n es) (hcut : ¬ CutShort (replies n es)) :
    InPieces p (chunks n es) := by
  obtain ⟨out, hpath⟩ := h.toward
  have hmod : p.length % 2 ^ 32 = p.length := Nat.mod_eq_of_lt (by have := hp.2; omega)
  have hsize : p.length % 2 ^ 32 ≤ maxFrameSize := by rw [hmod]; exact hp.2
  have hok : out = .ok () := by
    rcases (path_sendFrame_replies hpath).2 hsize with ⟨hok, -⟩ | ⟨-, hwhy⟩
    · exact hok
    · rw [replies_toward] at hwhy
      exact absurd (hwhy.mpr hcut) hsent
  subst hok
  rw [← chunks_toward]
  refine ⟨by rw [flatten_chunks, path_sendFrame hp hpath], ?_, ?_⟩
  · intro q hq
    simpa using (List.mem_filter.mp hq).2
  · obtain ⟨rest, hes, -⟩ := path_sendFrame_header hp hpath
    rw [hes, chunks, List.map_cons, writtenBy_header]
    rfl

theorem cut_thread {ps : List Bytes} {hs : List (Hist sig)} (h : List.Forall₂ (Speaks n t) ps hs)
    (hps : ∀ p ∈ ps, Sized p) (hhs : ∀ es ∈ hs, none ∉ replies n es ∧ ¬ CutShort (replies n es)) :
    Cut InPieces ps (chunks n hs.flatten) := by
  induction h with
  | nil => exact .nil
  | cons hp _ ih =>
    obtain ⟨hsent, hcut⟩ := hhs _ List.mem_cons_self
    rw [List.flatten_cons, chunks_append]
    exact .cons (hp.inPieces (hps _ List.mem_cons_self) hsent hcut)
      (ih (fun p hp => hps p (List.mem_cons_of_mem _ hp))
        fun es hes => hhs es (List.mem_cons_of_mem _ hes))

/-! ## What an interruption does -/

theorem client_look_header {len : Nat} (h : len ≤ 16384) (more : Bytes) :
    Client.look (hexHeader len ++ more) =
      if more.length < len then .wait else .item (more.take len) (more.drop len) := by
  have hmod : len % 2 ^ 32 = len := Nat.mod_eq_of_lt (by omega)
  have htotal : (4 + len) % 2 ^ 32 = 4 + len := Nat.mod_eq_of_lt (by omega)
  have hlen : (hexHeader len ++ more).length = 4 + more.length := by simp
  have hhead : stoul16 ((hexHeader len ++ more).take 4) = some len :=
    stoul16_hexHeader (by omega : len < 2 ^ 16)
  have hdrop : (hexHeader len ++ more).drop 4 = more := rfl
  unfold Client.look
  rw [if_neg (by rw [hlen]; omega), hhead]
  dsimp only
  rw [hmod, htotal, hlen, ← List.drop_drop, hdrop]
  simp only [Nat.add_lt_add_iff_left]

/-- Nothing in `x` looks like the header of one of the payloads, not even cut off at its end. -/
def Clear (payloads : Srv → List Bytes) (x : Bytes) : Prop :=
  (∀ t, ∀ q ∈ payloads t, ¬ hexHeader q.length <:+: x) ∧ ∀ b, x.getLast? = some b → hexVal? b = none

theorem hexVal_of_mem_header {len : Nat} {b : UInt8} (h : b ∈ hexHeader len) : hexVal? b ≠ none := by
  have hdigit : ∀ d, hexVal? (hexChar (d % 16)) ≠ none := by
    intro d
    rw [(hexChar_spec (d % 16) (Nat.mod_lt _ (by omega))).2.2.2.2.2]
    simp
  simp only [hexHeader, List.mem_cons, List.not_mem_nil, or_false] at h
  rcases h with rfl | rfl | rfl | rfl
  · exact hdigit _
  · exact hdigit _
  · exact hdigit _
  · exact hdigit _

/-- A header in the middle of a frame ends up in the payload that is decoded. -/
theorem not_clear {payloads : Srv → List Bytes} {y a rest : Bytes} {len : Nat}
    (hy : y ∈ payloads t) (ha : a.length < len)
    (hlen : len ≤ (a ++ (hexHeader y.length ++ rest)).length) :
    ¬ Clear payloads ((a ++ (hexHeader y.length ++ rest)).take len) := by
  rintro ⟨hinner, hlast⟩
  obtain ⟨r, rfl⟩ : ∃ r, len = a.length + (r + 1) := ⟨len - a.length - 1, by omega⟩
  rw [List.take_length_add_append] at hinner hlast
  by_cases hr : r + 1 < 4
  · -- the payload ends inside the header
    have htake : (hexHeader y.length ++ rest).take (r + 1) = (hexHeader y.length).take (r + 1) :=
      List.take_append_of_le_length (by rw [length_hexHeader]; omega)
    rw [htake] at hlast
    cases hget : ((hexHeader y.length).take (r + 1)).getLast? with
    | none => simp [hexHeader] at hget
    | some b =>
      have hmem : b ∈ hexHeader y.length := List.mem_of_mem_take (List.mem_of_getLast? hget)
      refine hexVal_of_mem_header hmem (hlast b ?_)
      rw [List.getLast?_append, hget]
      rfl
  · refine hinner t y hy ?_
    have hsplit : (hexHeader y.length ++ rest).take (r + 1) =
        hexHeader y.length ++ rest.take (r + 1 - 4) := by
      rw [List.take_append, List.take_of_length_le (by rw [length_hexHeader]; omega),
        length_hexHeader]
    rw [hsplit]
    exact ⟨a, rest.take (r + 1 - 4), by simp⟩

/-- If everything the client decodes is clear, nobody was interrupted. -/
theorem uninterrupted_of_drains {payloads items : Srv → List Bytes} {es : List (Srv × Bytes)}
    {xs : List Bytes} (hitems : ∀ t, ∀ p ∈ items t, p ∈ payloads t)
    (hsize : ∀ t, ∀ p ∈ items t, Sized p) (hcut : ∀ t, Cut InPieces (items t) (of t es))
    (hd : Drains Client.look (es.map Prod.snd).flatten xs none []) (hxs : ∀ x ∈ xs, Clear payloads x) :
    Uninterrupted InPieces items es := by
  induction hn : es.length using Nat.strongRecOn generalizing items es xs with
  | ind k ih =>
    cases es with
    | nil =>
      intro es₁ i p es₂ heq
      exact absurd heq (by simp)
    | cons e es =>
      obtain ⟨i, b⟩ := e
      obtain ⟨x, is, ps, hi, hx, ⟨es', heq⟩ | ⟨m, j, q, es', hm, hlt, hj, heq⟩⟩ := front_item hcut
      · rw [heq] at hcut hd hn ⊢
        have hsx : Sized x := hsize i x (by rw [hi]; simp)
        have hlen : es'.length < k := hn ▸ length_tail pieces_inPieces hx
        rw [List.map_append, List.flatten_append, map_solo, hx.1] at hd
        have hlook := codec_client.item x (es'.map Prod.snd).flatten hsx
        have hsub : ∀ u, ∀ p ∈ Function.update items i is u, p ∈ items u := by
          intro u p hp
          by_cases hu : u = i
          · subst hu
            rw [Function.update_self] at hp
            rw [hi]
            exact List.mem_cons_of_mem x hp
          · rwa [Function.update_of_ne hu] at hp
        cases hd with
        | drop hd _ => rw [hlook] at hd; cases hd
        | item hd hrest =>
          rw [hlook] at hd
          cases hd
          refine Uninterrupted.of_tail (ih _ hlen (fun u p hp => hitems u p (hsub u p hp))
            (fun u p hp => hsize u p (hsub u p hp)) (cut_tail pieces_inPieces hcut hi hx) hrest
            (fun z hz => hxs z (List.mem_cons_of_mem _ hz)) rfl) hi hx
      · -- the next piece is the header of an item of `j`
        exfalso
        rw [heq] at hcut hd
        obtain ⟨y, ys, qs, rs, hjy, hyq, hcat⟩ : ∃ y ys qs rs, items j = y :: ys ∧ InPieces y qs ∧
            qs ++ rs = q :: of j es' := by
          have hcj := hcut j
          rw [of_append, of_solo_ne hj, List.nil_append, of_cons_self] at hcj
          generalize hall : q :: of j es' = all at hcj
          generalize hitem : items j = its at hcj
          cases hcj with
          | nil => cases hall
          | @cons y ys qs rs hyq _ => exact ⟨y, ys, qs, rs, rfl, hyq, rfl⟩
        have hq : q = hexHeader y.length := by
          cases qs with
          | nil => cases hyq.2.2
          | cons q' qs =>
            obtain ⟨rfl, -⟩ := List.cons.inj hcat
            exact Option.some.inj hyq.2.2
        obtain ⟨hflat, hne, hhead⟩ := hx
        obtain ⟨qs', rfl⟩ : ∃ qs', ps = hexHeader x.length :: qs' := by
          cases ps with
          | nil => cases hhead
          | cons p ps => exact ⟨ps, by rw [Option.some.inj hhead]⟩
        obtain ⟨l, rfl⟩ : ∃ l, m = l + 1 := ⟨m - 1, by omega⟩
        -- of the payload only `a` was sent
        have hpay : (qs'.take l).flatten ++ (qs'.drop l).flatten = x := by
          rw [← List.flatten_append, List.take_append_drop]
          rw [List.flatten_cons] at hflat
          exact List.append_cancel_left hflat
        have hshort : (qs'.take l).flatten.length < x.length := by
          have hdrop : (qs'.drop l).flatten ≠ [] := by
            have hlen : 0 < (qs'.drop l).length := by
              rw [List.length_drop]
              simp only [List.length_cons] at hlt
              omega
            obtain ⟨z, zs, hz⟩ := List.exists_cons_of_length_pos hlen
            rw [hz, List.flatten_cons]
            intro hnil
            have hzmem : z ∈ qs'.drop l := by rw [hz]; simp
            exact hne z (List.mem_cons_of_mem _ (List.mem_of_mem_drop hzmem))
              (List.append_eq_nil_iff.mp hnil).1
          have hpos := List.length_pos_iff.mpr hdrop
          rw [← hpay, List.length_append]
          omega
        have hstream : ((solo i ((hexHeader x.length :: qs').take (l + 1)) ++ (j, q) :: es').map
            Prod.snd).flatten = hexHeader x.length ++ ((qs'.take l).flatten ++
              (hexHeader y.length ++ (es'.map Prod.snd).flatten)) := by
          rw [List.map_append, List.flatten_append, map_solo, hq]
          simp
        have hsx : Sized x := hsize i x (by rw [hi]; simp)
        have hlook := client_look_header hsx.2 ((qs'.take l).flatten ++
          (hexHeader y.length ++ (es'.map Prod.snd).flatten))
        rw [hstream] at hd
        have hmem : y ∈ payloads j := hitems j y (by rw [hjy]; simp)
        split at hlook
        · cases hd with
          | drop hd _ => rw [hlook] at hd; cases hd
          | item hd _ => rw [hlook] at hd; cases hd
        · rename_i hge
          cases hd with
          | drop hd _ => rw [hlook] at hd; cases hd
          | item hd _ =>
            rw [hlook] at hd
            cases hd
            exact not_clear hmem hshort (Nat.not_lt.mp hge) (hxs _ List.mem_cons_self)

/-! ## What a header that is cut short does -/

theorem written_cons (n : Fd) (e : Call sig) (es : Hist sig) :
    written n (e :: es) = writtenBy n e ++ written n es :=
  List.flatMap_cons

/-- A loop over a payload writes the beginning of it, and not all of it if it gives up. -/
theorem sendRest_begins {fuel : Nat} {rest : Bytes} {es : Hist sig} {out : Except Err Unit}
    (h : (sendRest n fuel rest).Path es out) :
    written n es <+: rest ∧ ∀ e, out = .error e → written n es ≠ rest := by
  induction fuel generalizing rest es out with
  | zero =>
    obtain ⟨rfl, rfl⟩ := Prog.path_ret_iff.mp h
    exact ⟨List.nil_prefix, fun e he => by cases he⟩
  | succ fuel ih =>
    unfold sendRest at h
    split at h
    · obtain ⟨rfl, rfl⟩ := Prog.path_ret_iff.mp h
      exact ⟨List.nil_prefix, fun e he => by cases he⟩
    · rename_i hne
      obtain ⟨r, es, rfl, hk⟩ := Prog.path_act_iff.mp h
      rw [written_cons, writtenBy, if_pos rfl]
      have hgiven : es = [] → (r.getD 0 = 0) → rest.take (r.getD 0) ++ written n es <+: rest ∧
          ∀ e, out = .error e → rest.take (r.getD 0) ++ written n es ≠ rest := by
        rintro rfl hr
        rw [hr]
        exact ⟨List.nil_prefix, fun _ _ h => hne h.symm⟩
      rcases r with _ | _ | k
      · obtain ⟨rfl, rfl⟩ := Prog.path_raise_iff.mp hk
        exact hgiven rfl rfl
      · obtain ⟨rfl, rfl⟩ := Prog.path_raise_iff.mp hk
        exact hgiven rfl rfl
      · obtain ⟨hbegins, hshort⟩ := ih hk
        have hsplit : rest.take (k + 1) ++ rest.drop (k + 1) = rest := List.take_append_drop _ _
        constructor
        · have hwhole := (List.prefix_append_right_inj (rest.take (k + 1))).mpr hbegins
          rw [hsplit] at hwhole
          exact hwhole
        · intro e he heq
          exact hshort e he (List.append_cancel_left (heq.trans hsplit.symm))

/-- The same for a frame. -/
theorem sendFrame_begins {es : Hist sig} {out : Except Err Unit} (hp : Sized p) (h : (sendFrame n p).Path es out) :
    written n es <+: encodeFrame p ∧
      ∀ e, out = .error e → (written n es).length < (encodeFrame p).length := by
  obtain ⟨hpos, hmax⟩ := hp
  have hmod : p.length % 2 ^ 32 = p.length := Nat.mod_eq_of_lt (by omega)
  unfold sendFrame at h
  simp only [hmod] at h
  rw [if_neg (by omega), if_neg (by unfold maxFrameSize; omega)] at h
  obtain ⟨r, es, rfl, hk⟩ := Prog.path_act_iff.mp h
  rw [Prog.bind_ret] at hk
  rw [written_cons, writtenBy, if_pos rfl, hmod]
  by_cases hr : r = some 4
  · subst hr
    obtain ⟨hbegins, hshort⟩ := sendRest_begins hk
    have hwhole : hexHeader p.length ++ written n es <+: encodeFrame p :=
      (List.prefix_append_right_inj (hexHeader p.length)).mpr hbegins
    refine ⟨hwhole, fun e he => lt_of_le_of_ne hwhole.length_le fun hlen => ?_⟩
    exact hshort e he (List.append_cancel_left (hwhole.eq_of_length hlen))
  · have hgave : es = [] := by
      split at hk
      · exact absurd rfl hr
      · exact (Prog.path_raise_iff.mp hk).1
    subst hgave
    have hhead : (hexHeader p.length).take (r.getD 0) ++ written n [] = (hexHeader p.length).take (r.getD 0) :=
      List.append_nil _
    rw [hhead]
    refine ⟨(List.take_prefix _ _).trans (List.prefix_append _ _), fun _ _ => ?_⟩
    have hlen := List.length_take_le (r.getD 0) (hexHeader p.length)
    rw [length_encodeFrame]
    have hfour : ((hexHeader p.length).take (r.getD 0)).length ≤ (hexHeader p.length).length :=
      (List.take_prefix _ _).length_le
    rw [length_hexHeader] at hfour
    omega

theorem Speaks.begins {es : Hist sig} (h : Speaks n t p es) (hp : Sized p) :
    written n es <+: encodeFrame p ∧
      (CutShort (replies n es) → (written n es).length < (encodeFrame p).length) := by
  obtain ⟨out, hpath⟩ := h.toward
  have hmod : p.length % 2 ^ 32 = p.length := Nat.mod_eq_of_lt (by have := hp.2; omega)
  have hsize : p.length % 2 ^ 32 ≤ maxFrameSize := by rw [hmod]; exact hp.2
  obtain ⟨hbegins, hshort⟩ := sendFrame_begins hp hpath
  have hsame : written n (ChatChannel.toward n es) = written n es := by
    rw [← flatten_chunks, chunks_toward, flatten_chunks]
  rw [hsame] at hbegins hshort
  refine ⟨hbegins, fun hcut => ?_⟩
  rcases (path_sendFrame_replies hpath).2 hsize with ⟨-, -, hno⟩ | ⟨⟨e, he⟩, -⟩
  · rw [replies_toward] at hno
    exact absurd hcut hno
  · exact hshort e he

theorem spoken {ps : List Bytes} {hs : List (Hist sig)} (h : List.Forall₂ (Speaks n t) ps hs) {es : Hist sig}
    (hes : es ∈ hs) : ∃ p ∈ ps, Speaks n t p es := by
  induction h with
  | nil => cases hes
  | cons hp _ ih =>
    rcases List.mem_cons.mp hes with rfl | hes
    · exact ⟨_, List.mem_cons_self, hp⟩
    · obtain ⟨p, hmem, hsp⟩ := ih hes
      exact ⟨p, List.mem_cons_of_mem _ hmem, hsp⟩

/-- The bytes that a thread's frames take. -/
def frameBytes (ps : List Bytes) : Nat := (ps.map fun p => (encodeFrame p).length).sum

theorem length_thread {ps : List Bytes} {hs : List (Hist sig)} (h : List.Forall₂ (Speaks n t) ps hs)
    (hps : ∀ p ∈ ps, Sized p) : (written n hs.flatten).length ≤ frameBytes ps ∧
      ((∃ es ∈ hs, CutShort (replies n es)) → (written n hs.flatten).length < frameBytes ps) := by
  induction h with
  | nil => exact ⟨Nat.le_refl 0, fun ⟨_, hes, _⟩ => by cases hes⟩
  | @cons p es ps hs hp _ ih =>
    obtain ⟨hbegins, hcut⟩ := hp.begins (hps p List.mem_cons_self)
    obtain ⟨hrest, hrest'⟩ := ih fun p hp => hps p (List.mem_cons_of_mem _ hp)
    have hle := hbegins.length_le
    have hsum : frameBytes (p :: ps) = (encodeFrame p).length + frameBytes ps := rfl
    have happend : (written n (es :: hs).flatten).length =
        (written n es).length + (written n hs.flatten).length := by
      rw [List.flatten_cons, written, List.flatMap_append, List.length_append]
      rfl
    rw [hsum, happend]
    refine ⟨Nat.add_le_add hle hrest, ?_⟩
    rintro ⟨es', hes', hshort⟩
    rcases List.mem_cons.mp hes' with rfl | hes'
    · have hlt := hcut hshort
      omega
    · have hlt := hrest' ⟨es', hes', hshort⟩
      omega

/-- No payload has a minus sign, which a header could begin with. -/
def Unsigned (payloads : Srv → List Bytes) : Prop := ∀ t, ∀ p ∈ payloads t, 45 ∉ p

theorem unsigned_encodeFrame (hp : 45 ∉ p) : 45 ∉ encodeFrame p := by
  intro h
  rcases List.mem_append.mp h with h | h
  · exact hexVal_of_mem_header h (by decide)
  · exact hp h

/-- Of a stream without a minus sign each item takes its frame away. -/
theorem client_look_length {acc x rest : Bytes} (hsign : 45 ∉ acc) (h : Client.look acc = .item x rest) :
    (encodeFrame x).length + rest.length = acc.length ∧ 45 ∉ rest := by
  unfold Client.look at h
  split at h
  · cases h
  · rename_i hlen
    split at h
    · cases h
    · rename_i v hv
      have hlt : v < 65536 :=
        Client.stoul16_lt (List.length_take_le 4 acc) (fun hmem => hsign (List.mem_of_mem_take hmem)) hv
      have hmod : v % 2 ^ 32 = v := Nat.mod_eq_of_lt (by omega)
      have htotal : (4 + v) % 2 ^ 32 = 4 + v := Nat.mod_eq_of_lt (by omega)
      dsimp only at h
      rw [hmod, htotal] at h
      split at h
      · cases h
      · rename_i hlong
        cases h
        refine ⟨?_, fun hmem => hsign (List.mem_of_mem_drop hmem)⟩
        rw [length_encodeFrame, List.length_take, List.length_drop, List.length_drop]
        omega

theorem frameBytes_le {acc left : Bytes} {xs : List Bytes} {o : Option Unit} (h : Drains Client.look acc xs o left)
    (hsign : 45 ∉ acc) : frameBytes xs ≤ acc.length := by
  induction h with
  | wait => exact Nat.zero_le _
  | fail => exact Nat.zero_le _
  | drop hd =>
    unfold Client.look at hd
    split at hd
    · cases hd
    · split at hd
      · cases hd
      · dsimp only at hd
        split at hd <;> cases hd
  | @item acc rest left x xs o hd _ ih =>
    obtain ⟨hlen, hrest⟩ := client_look_length hsign hd
    have hsum : frameBytes (x :: xs) = (encodeFrame x).length + frameBytes xs := rfl
    have hle := ih hrest
    omega

section

variable {payloads : Srv → List Bytes} {es : List (Srv × Call sig)} {hists : Srv → List (Hist sig)}

theorem unsigned_stream (hsize : ∀ t, ∀ p ∈ payloads t, Sized p) (hthreads : ∀ t, of t es = (hists t).flatten)
    (hspeak : ∀ t, List.Forall₂ (Speaks n t) (payloads t) (hists t)) (hsign : Unsigned payloads) :
    45 ∉ stream n es := by
  intro hmem
  obtain ⟨b, hb, hmem⟩ := List.mem_flatten.mp hmem
  obtain ⟨⟨u, e⟩, he, rfl⟩ := List.mem_map.mp hb
  have hown : e ∈ of u es := List.mem_filterMap.mpr ⟨(u, e), he, if_pos rfl⟩
  rw [hthreads] at hown
  obtain ⟨h, hh, he'⟩ := List.mem_flatten.mp hown
  obtain ⟨p, hp, hsp⟩ := spoken (hspeak u) hh
  have hwritten : 45 ∈ written n h := List.mem_flatMap.mpr ⟨e, he', hmem⟩
  exact unsigned_encodeFrame (hsign u p hp) ((hsp.begins (hsize u p hp)).1.subset hwritten)

/-- If the payloads arrive, no frame was given up: there would be too few bytes. -/
theorem not_cutShort_of_whole (hsize : ∀ t, ∀ p ∈ payloads t, Sized p)
    (hthreads : ∀ t, of t es = (hists t).flatten)
    (hspeak : ∀ t, List.Forall₂ (Speaks n t) (payloads t) (hists t)) (hsign : Unsigned payloads)
    (hw : Whole n payloads es) (t : Srv) (h : Hist sig) (hh : h ∈ hists t) : ¬ CutShort (replies n h) := by
  intro hcut
  obtain ⟨w, hof, hd⟩ := hw
  have hcount (u : Srv) : ((of u es).map fun e => (writtenBy n e).length).sum = (written n (of u es)).length := by
    rw [written, List.length_flatMap]
  have hbytes (u : Srv) : ((of u es).map fun e => (writtenBy n e).length).sum ≤ frameBytes (of u w) ∧
      ((∃ h ∈ hists u, CutShort (replies n h)) →
        ((of u es).map fun e => (writtenBy n e).length).sum < frameBytes (of u w)) := by
    rw [hcount, hthreads, hof]
    exact length_thread (hspeak u) (hsize u)
  have hlt : (stream n es).length < frameBytes (w.map Prod.snd) := by
    rw [stream, List.length_flatten, List.map_map, frameBytes, List.map_map]
    exact sum_lt (fun u => (hbytes u).1) ((hbytes t).2 ⟨h, hh, hcut⟩)
  exact absurd (frameBytes_le hd (unsigned_stream hsize hthreads hspeak hsign)) (Nat.not_le.mpr hlt)

end

/-! ## The connection's stream -/

/-- **When frames arrive whole.** The lobby and the channels' workers each send frames to one connection,
and no `send` fails. If each header goes out in one piece and no thread sends while another one is in
the middle of a frame, the client decodes an interleaving of exactly the payloads. It does so only if each
header goes out in one piece, where no payload has a minus sign; and where nothing in a payload looks like a
header, only if no thread interrupts another. -/
theorem frames_whole_iff (n : Fd) (payloads : Srv → List Bytes)
    (hsize : ∀ t, ∀ p ∈ payloads t, 1 ≤ p.length ∧ p.length ≤ 16384)
    (es : List (Srv × Call sig)) (hists : Srv → List (Hist sig))
    (hthreads : ∀ t, of t es = (hists t).flatten)
    (hspeak : ∀ t, List.Forall₂ (Speaks n t) (payloads t) (hists t))
    (hsent : ∀ e ∈ es, ∀ b, e.2 ≠ ⟨.send n b, none⟩) :
    ((∀ t, ∀ h ∈ hists t, ¬ CutShort (replies n h)) → Undisturbed n payloads es →
        Whole n payloads es) ∧
      (Unsigned payloads → Whole n payloads es → ∀ t, ∀ h ∈ hists t, ¬ CutShort (replies n h)) ∧
      ((∀ t, ∀ h ∈ hists t, ¬ CutShort (replies n h)) →
        (∀ t, ∀ p ∈ payloads t, Clear payloads p) → Whole n payloads es →
        Undisturbed n payloads es) := by
  have hcut (hheads : ∀ t, ∀ h ∈ hists t, ¬ CutShort (replies n h)) :
      ∀ t, Cut InPieces (payloads t) (of t (pieces n es)) := by
    intro t
    rw [of_pieces, hthreads]
    refine cut_thread (hspeak t) (hsize t) fun h hh => ⟨fun hnone => ?_, hheads t h hh⟩
    -- a failed `send` of the thread is one of the whole run
    obtain ⟨e, he, heq⟩ := List.mem_filterMap.mp hnone
    have hflat : e ∈ of t es := by
      rw [hthreads]
      exact List.mem_flatten.mpr ⟨h, hh, he⟩
    obtain ⟨q, hq, hqe⟩ := List.mem_filterMap.mp hflat
    obtain ⟨u, e'⟩ := q
    split at hqe
    · obtain rfl := Option.some.inj hqe
      obtain ⟨a, r⟩ := e'
      cases a <;> first | cases heq | skip
      rename_i m b hu
      dsimp only at heq
      split at heq
      · rename_i hm
        subst hm
        obtain rfl := Option.some.inj heq
        exact hsent _ hq b rfl
      · cases heq
    · cases hqe
  refine ⟨?_, not_cutShort_of_whole hsize hthreads hspeak, ?_⟩
  · intro hheads hun
    obtain ⟨w, hw, hstream⟩ := Uninterrupted.shuffle pieces_inPieces (hcut hheads) hun
    refine ⟨w, hw, ?_⟩
    have hgood : ∀ x ∈ w.map Prod.snd, Sized x := by
      intro x hx
      obtain ⟨q, hq, rfl⟩ := List.mem_map.mp hx
      refine hsize q.1 q.2 ?_
      rw [← hw]
      exact List.mem_filterMap.mpr ⟨q, hq, by simp⟩
    have hempty : Drains Client.look [] [] none [] := .wait rfl
    have hdr := codec_client.drains hempty _ hgood
    rwa [List.append_nil, List.append_nil, ← hstream, ← stream_pieces] at hdr
  · rintro hheads hclear ⟨w, hw, hd⟩
    rw [stream_pieces] at hd
    refine uninterrupted_of_drains (fun t p hp => hp) hsize (hcut hheads) hd fun x hx => ?_
    obtain ⟨q, hq, rfl⟩ := List.mem_map.mp hx
    refine hclear q.1 q.2 ?_
    rw [← hw]
    exact List.mem_filterMap.mpr ⟨q, hq, by simp⟩

/-! ## An interruption -/

/-- The lobby refuses a move while channel 1 sends an empty window. -/
def twoFrames : Srv → List Bytes
  | .lobby => [channelFull]
  | .chan c => if c = 1 then [ascii "[]"] else []

/-- The calls of the two threads, the lobby's first. -/
def twoSends : Srv → List (Hist sig)
  | .lobby => [[⟨.send 5 (hexHeader channelFull.length), some 4⟩,
      ⟨.send 5 channelFull, some channelFull.length⟩]]
  | .chan c => if c = 1 then [[⟨.send 5 (ascii "0002"), some 4⟩, ⟨.send 5 (ascii "[]"), some 2⟩]]
    else []

theorem twoSends_speak (t : Srv) : List.Forall₂ (Speaks 5 t) (twoFrames t) (twoSends t) := by
  cases t with
  | lobby =>
    have hpath : (sendFrame 5 channelFull).Path [⟨.send 5 (hexHeader channelFull.length), some 4⟩,
        ⟨.send 5 channelFull, some channelFull.length⟩] (.ok ()) := .act (.act (.ret ()))
    exact .cons (.reply hpath) .nil
  | chan c =>
    by_cases hc : c = 1
    · subst hc
      have hpath : (broadcast (ascii "[]") [5]).Path [⟨.send 5 (ascii "0002"), some 4⟩,
          ⟨.send 5 (ascii "[]"), some 2⟩] (.ok []) := .act (.act (.ret []))
      exact .cons (.window hpath (by decide) (by decide)) .nil
    · simp only [twoFrames, twoSends, if_neg hc]
      exact .nil

theorem twoFrames_sized : ∀ t, ∀ p ∈ twoFrames t, 1 ≤ p.length ∧ p.length ≤ 16384 := by
  intro t p hp
  cases t with
  | lobby =>
    rw [List.mem_singleton.mp hp]
    decide
  | chan c =>
    by_cases hc : c = 1
    · subst hc
      rw [List.mem_singleton.mp hp]
      decide
    · simp [twoFrames, hc] at hp

/-- One frame after the other. -/
def inTurn : List (Srv × Call sig) :=
  [(.lobby, ⟨.send 5 (hexHeader channelFull.length), some 4⟩),
    (.lobby, ⟨.send 5 channelFull, some channelFull.length⟩),
    (.chan 1, ⟨.send 5 (ascii "0002"), some 4⟩), (.chan 1, ⟨.send 5 (ascii "[]"), some 2⟩)]

/-- The channel sends its frame between the lobby's header and the payload. -/
def inBetween : List (Srv × Call sig) :=
  [(.lobby, ⟨.send 5 (hexHeader channelFull.length), some 4⟩),
    (.chan 1, ⟨.send 5 (ascii "0002"), some 4⟩), (.chan 1, ⟨.send 5 (ascii "[]"), some 2⟩),
    (.lobby, ⟨.send 5 channelFull, some channelFull.length⟩)]

theorem of_twoSends (t : Srv) :
    of t inTurn = (twoSends t).flatten ∧ of t inBetween = (twoSends t).flatten := by
  cases t with
  | lobby => exact ⟨rfl, rfl⟩
  | chan c =>
    by_cases hc : c = 1
    · subst hc
      exact ⟨rfl, rfl⟩
    · simp [inTurn, inBetween, twoSends, hc, of, Ne.symm hc]

theorem twoSends_headers (t : Srv) : ∀ h ∈ twoSends t, ¬ CutShort (replies 5 h) := by
  intro h hh
  cases t with
  | lobby =>
    rw [List.mem_singleton.mp hh]
    simp [replies, CutShort, channelFull, ascii]
  | chan c =>
    by_cases hc : c = 1
    · subst hc
      rw [List.mem_singleton.mp hh]
      simp [replies, CutShort]
    · simp [twoSends, hc] at hh

theorem frames_whole_inTurn : Whole 5 twoFrames inTurn := by
  refine (frames_whole_iff 5 twoFrames twoFrames_sized inTurn twoSends (fun t => (of_twoSends t).1)
    twoSends_speak (by simp [inTurn])).1 twoSends_headers ?_
  have hdone : Uninterrupted InPieces
      (Function.update (Function.update twoFrames .lobby []) (.chan 1) []) [] :=
    fun es₁ i p es₂ heq => absurd heq (by simp)
  have hwindow : InPieces (ascii "[]") [ascii "0002", ascii "[]"] :=
    ⟨by decide, by decide, by decide⟩
  have hreply : InPieces channelFull [hexHeader channelFull.length, channelFull] :=
    ⟨by decide, by decide, by decide⟩
  exact (hdone.of_tail (x := ascii "[]") (by decide) hwindow).of_tail rfl hreply

/-- What the client gets then is the beginning of the channel's frame and of the lobby's text, and
a header that is none. -/
theorem frames_torn : (∀ t, of t inBetween = (twoSends t).flatten) ∧
    (∀ t, List.Forall₂ (Speaks 5 t) (twoFrames t) (twoSends t)) ∧
    (∀ t, ∀ p ∈ twoFrames t, 1 ≤ p.length ∧ p.length ≤ 16384) ∧
    (∀ e ∈ inBetween, ∃ b k, e.2 = ⟨.send 5 b, some k⟩) ∧ ¬ Whole 5 twoFrames inBetween := by
  refine ⟨fun t => (of_twoSends t).2, twoSends_speak, twoFrames_sized, by simp [inBetween], ?_⟩
  rintro ⟨w, -, hd⟩
  have hstream : stream 5 inBetween =
      hexHeader 49 ++ (ascii "0002" ++ (ascii "[]" ++ channelFull)) := by decide
  have hlook := client_look_header (by decide : 49 ≤ 16384) (ascii "0002" ++ (ascii "[]" ++ channelFull))
  rw [if_neg (by decide)] at hlook
  have hfail : Client.look ((ascii "0002" ++ (ascii "[]" ++ channelFull)).drop 49) = .fail () := by
    have hhead : stoul16 (((ascii "0002" ++ (ascii "[]" ++ channelFull)).drop 49).take 4) = none := by
      decide
    unfold Client.look
    rw [if_neg (by decide), hhead]
  rw [hstream] at hd
  cases (hd.det (.item hlook (.fail hfail))).2.1

end ChatChannel
