import ChatChannel.Model.Script
import ChatChannel.Proof.Framing

/-!
# Round trip

What `Communication::send_frame` writes, both decoders read back: the server's, which has rules for
lengths it does not like, and the clients', which have none.
-/

set_option autoImplicit false

namespace ChatChannel

open Conc Incremental

/-! ## The clients' decoder -/

theorem codec_client : Codec Client.look encodeFrame Sized where
  item := by
    rintro p more ⟨hpos, hmax⟩
    have hmod : p.length % 2 ^ 32 = p.length := Nat.mod_eq_of_lt (by omega)
    have htotal : (4 + p.length) % 2 ^ 32 = 4 + p.length := Nat.mod_eq_of_lt (by omega)
    have hhead : stoul16 ((encodeFrame p ++ more).take 4) = some p.length :=
      stoul16_hexHeader (by omega : p.length < 2 ^ 16)
    have hdrop : (encodeFrame p ++ more).drop 4 = p ++ more := rfl
    unfold Client.look
    rw [if_neg (by simp; omega), hhead]
    dsimp only
    rw [hmod, htotal, if_neg (by simp), ← List.drop_drop, hdrop]
    simp
  wait := by
    rintro p t ⟨hpos, hmax⟩ ht
    unfold Client.look
    rcases unfinished_frame ht with hshort | ⟨h4, hlt, hhead⟩
    · rw [if_pos hshort]
    · have hmod : p.length % 2 ^ 32 = p.length := Nat.mod_eq_of_lt (by omega)
      have htotal : (4 + p.length) % 2 ^ 32 = 4 + p.length := Nat.mod_eq_of_lt (by omega)
      rw [if_neg (Nat.not_lt.mpr h4), hhead, stoul16_hexHeader (by omega : p.length < 2 ^ 16)]
      dsimp only
      rw [hmod, htotal, if_pos hlt]

/-! ## Sequences of calls -/

/-- Consecutive calls of `recv_frame`, with their results, take the buffer of `n` from `acc` to
`left`. -/
inductive Decodings (P : Params) (n : Fd) :
    Bytes → List (Hist sig × Except Err (List Bytes)) → Bytes → Prop
  | nil (acc : Bytes) : Decodings P n acc [] acc
  | cons {acc acc₁ left : Bytes} {es : Hist sig} {out : Except Err (List Bytes)}
      {calls : List (Hist sig × Except Err (List Bytes))} :
      (recvFrame P n).Path es out → Reads n acc es acc₁ → Decodings P n acc₁ calls left →
      Decodings P n acc ((es, out) :: calls) left

/-- Consecutive calls of a client's `recv_frames`, each with what it read, what it displayed and what
it returned. -/
inductive Receptions : Bytes → List Bytes → List (List Bytes × Bool) → Bytes → Prop
  | nil (acc : Bytes) : Receptions acc [] [] acc
  | cons {acc acc₁ left b : Bytes} {shown : List Bytes} {ok : Bool} {reads : List Bytes}
      {calls : List (List Bytes × Bool)} :
      Client.RecvFrames acc (.chunk b) shown acc₁ ok → Receptions acc₁ reads calls left →
      Receptions acc (b :: reads) ((shown, ok) :: calls) left

theorem Decodings.of_feeds {P : Params} {n : Fd} {acc left left' : Bytes}
    {calls : List (Hist sig × Except Err (List Bytes))} {xss : List (List Bytes)}
    (h : Decodings P n acc calls left) (hopen : ∀ c ∈ calls, Open n c.1)
    (hf : Feeds look acc (calls.map fun c => received n c.1) xss left') :
    calls.map Prod.snd = xss.map .ok ∧ left = left' := by
  induction h generalizing xss with
  | nil acc =>
    cases hf
    exact ⟨rfl, rfl⟩
  | cons hpath hreads _ ih =>
    cases hf with
    | cons hd hf =>
      obtain ⟨hleft, hout⟩ := path_recvFrame hpath hreads (hopen _ List.mem_cons_self)
      rw [decodeFrames_of_drains hd] at hleft hout
      subst hleft hout
      obtain ⟨hrest, rfl⟩ := ih (fun c hc => hopen c (List.mem_cons_of_mem _ hc)) hf
      exact ⟨by rw [List.map_cons, List.map_cons, hrest]; rfl, rfl⟩

theorem receptions_of_feeds {acc left : Bytes} {reads : List Bytes} {xss : List (List Bytes)}
    (hf : Feeds Client.look acc reads xss left) :
    Receptions acc reads (xss.map fun xs => (xs, true)) left := by
  induction hf with
  | nil acc => exact .nil acc
  | cons hd _ ih => exact .cons (.read hd) ih

theorem Receptions.det {acc left left' : Bytes} {reads : List Bytes}
    {calls calls' : List (List Bytes × Bool)} (h : Receptions acc reads calls left)
    (h' : Receptions acc reads calls' left') : calls = calls' ∧ left = left' := by
  induction h generalizing calls' with
  | nil =>
    cases h'
    exact ⟨rfl, rfl⟩
  | cons hr _ ih =>
    cases h' with
    | cons hr' h' =>
      cases hr with
      | read hd =>
        cases hr' with
        | read hd' =>
          obtain ⟨rfl, rfl, rfl⟩ := hd.det hd'
          obtain ⟨rfl, rfl⟩ := ih h'
          exact ⟨rfl, rfl⟩

/-- What a sequence of `send_frame` calls puts on the wire. -/
theorem written_frames {m : Fd} {ps : List Bytes} {hs : List (Hist sig)}
    (h : List.Forall₂ (fun p es => (sendFrame m p).Path es (.ok ())) ps hs)
    (hps : ∀ p ∈ ps, Sized p) : hs.flatMap (written m) = (ps.map encodeFrame).flatten := by
  induction h with
  | nil => rfl
  | cons hp _ ih =>
    rw [List.flatMap_cons, path_sendFrame (hps _ (by simp)) hp,
      ih fun p hp => hps p (List.mem_cons_of_mem _ hp)]
    rfl

/-- **Frames survive the wire.** The payloads that `send_frame` sent, followed by an unfinished frame:
however the kernel split the writes, and however the stream is split into reads and the reads into
calls, the server's decoder returns the payloads in order, the clients' displays them, and the
unfinished frame is left in the buffer. -/
theorem frames_round_trip (P : Params) (m : Fd) (ps : List Bytes) (q t : Bytes)
    (hps : ∀ p ∈ q :: ps, 1 ≤ p.length ∧ p.length ≤ 16384)
    (ht : t <+: encodeFrame q ∧ t ≠ encodeFrame q) (hs : List (Hist sig))
    (hsend : List.Forall₂ (fun p es => (sendFrame m p).Path es (.ok ())) ps hs) :
    (∀ (n : Fd) (calls : List (Hist sig × Except Err (List Bytes))) (left : Bytes),
      Decodings P n [] calls left → (∀ c ∈ calls, Open n c.1) →
      calls.flatMap (fun c => received n c.1) = hs.flatMap (written m) ++ t →
      ∃ frames : List (List Bytes), calls.map Prod.snd = frames.map .ok ∧
        frames.flatten = ps ∧ left = t) ∧
    (∀ reads : List Bytes, reads.flatten = hs.flatMap (written m) ++ t →
      ∃ shown : List (List Bytes), shown.flatten = ps ∧ ∀ calls left, Receptions [] reads calls left ↔
        calls = shown.map (fun xs => (xs, true)) ∧ left = t) ∧
    t.length ≤ 16387 := by
  have hq : Sized q := hps q (by simp)
  have hall : ∀ p ∈ ps, Sized p := fun p hp => hps p (List.mem_cons_of_mem q hp)
  have hstream := written_frames hsend hall
  refine ⟨fun n calls left hdec hopen hsplit => ?_, fun reads hsplit => ?_, ?_⟩
  · have hpieces : [] ++ (calls.map fun c => received n c.1).flatten =
        (ps.map encodeFrame).flatten ++ t := by
      rw [List.nil_append, ← List.flatMap_def, hsplit, hstream]
    obtain ⟨xss, hfeeds, hflat⟩ :=
      codec_look.feeds (codec_look.stalled hq ht) _ ps [] hall (look_of_short (by simp)) hpieces
    obtain ⟨hout, rfl⟩ := hdec.of_feeds hopen hfeeds
    exact ⟨xss, hout, hflat, rfl⟩
  · have hwait : Client.look [] = .wait := rfl
    rw [hstream] at hsplit
    obtain ⟨xss, hfeeds, hflat⟩ :=
      codec_client.feeds (codec_client.stalled hq ht) _ ps [] hall hwait hsplit
    have hrec := receptions_of_feeds hfeeds
    refine ⟨xss, hflat, fun calls left => ⟨fun h => h.det hrec, ?_⟩⟩
    rintro ⟨rfl, rfl⟩
    exact hrec
  · have hlen : t.length < (encodeFrame q).length := by
      refine lt_of_le_of_ne ht.1.length_le fun heq => ht.2 ?_
      exact ht.1.eq_of_length heq
    rw [length_encodeFrame] at hlen
    have hmax := hq.2
    omega

/-- Two frames, sent in three and two writes, and read in two calls, the first of which ends inside the second frame, with
the beginning of a third one. -/
theorem frames_round_trip_hi : ∃ calls, Decodings sample 7 [] calls (ascii "000") ∧
    ∃ frames : List (List Bytes), calls.map Prod.snd = frames.map .ok ∧
      frames.flatten = [ascii "hi", ascii "yo"] ∧ ascii "000" = ascii "000" := by
  have hsend : (sendFrame 5 (ascii "hi")).Path
      [⟨.send 5 (ascii "0002"), some 4⟩, ⟨.send 5 (ascii "hi"), some 1⟩,
        ⟨.send 5 (ascii "i"), some 1⟩] (.ok ()) := .act (.act (.act (.ret ())))
  have hsend' : (sendFrame 5 (ascii "yo")).Path
      [⟨.send 5 (ascii "0002"), some 4⟩, ⟨.send 5 (ascii "yo"), some 2⟩] (.ok ()) := .act (.act (.ret ()))
  have hfirst : (recvFrame sample 7).Path
      [⟨.recv 7, .chunk (ascii "0002hi00")⟩, ⟨.decode 7, .ok [ascii "hi"]⟩] (.ok [ascii "hi"]) := .act (.act (.ret _))
  have hsecond : (recvFrame sample 7).Path
      [⟨.recv 7, .chunk (ascii "02yo000")⟩, ⟨.decode 7, .ok [ascii "yo"]⟩] (.ok [ascii "yo"]) :=
    .act (.act (.ret _))
  have hread : Reads 7 []
      [⟨.recv 7, .chunk (ascii "0002hi00")⟩, ⟨.decode 7, .ok [ascii "hi"]⟩] (ascii "00") :=
    reads_chunk (by decide) (by decide) (.nil _)
  have hread' : Reads 7 (ascii "00")
      [⟨.recv 7, .chunk (ascii "02yo000")⟩, ⟨.decode 7, .ok [ascii "yo"]⟩] (ascii "000") :=
    reads_chunk (by decide) (by decide) (.nil _)
  have hcalls := Decodings.cons hfirst hread (.cons hsecond hread' (.nil _))
  refine ⟨_, hcalls, (frames_round_trip sample 5 [ascii "hi", ascii "yo"] (ascii "hi") (ascii "000")
    (by decide) (by decide) _ (.cons hsend (.cons hsend' .nil))).1 7 _ _ hcalls ?_ (by decide)⟩
  simp [Open]

end ChatChannel
