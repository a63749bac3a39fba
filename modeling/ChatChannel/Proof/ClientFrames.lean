import Mathlib.Tactic.IntervalCases
import ChatChannel.Proof.RoundTrip

/-!
# What the clients send

A client's `send_frame` has no size limit and prints the length into a buffer of five characters. Up
to 65535 bytes the server reads the length that was meant, and refuses what is too long; from there
on the header holds the first four digits only, and what the server makes of the stream depends on
them.
-/

set_option autoImplicit false

namespace ChatChannel

open Conc Incremental

/-! ## The header -/

/-- The first four of at most `4 + k` hexadecimal digits, as a number. -/
def printed : Nat → Nat → Nat
  | 0, len => len
  | k + 1, len => if len < 65536 then len else printed k (len / 16)

/-- What the header of a payload of `len` bytes says. -/
def headerLength (len : Nat) : Nat := printed 4 (len % 2 ^ 32)

theorem printed_lt : ∀ {k len : Nat}, len < 65536 * 16 ^ k → printed k len < 65536
  | 0, len, h => by simpa [printed] using h
  | k + 1, len, h => by
    unfold printed
    split
    · assumption
    · refine printed_lt ?_
      rw [Nat.div_lt_iff_lt_mul (by omega)]
      rw [Nat.pow_succ] at h
      omega

theorem headerLength_lt (len : Nat) : headerLength len < 65536 :=
  printed_lt (by
    have := Nat.mod_lt len (show 2 ^ 32 > 0 by omega)
    omega)

theorem headerLength_of_lt {len : Nat} (h : len < 65536) : headerLength len = len := by
  have hmod : len % 2 ^ 32 = len := Nat.mod_eq_of_lt (by omega)
  rw [headerLength, hmod]
  simp [printed, h]

/-- Padded to four digits, cut after four. -/
def fourDigits (digits : Bytes) : Bytes :=
  (List.replicate (4 - digits.length) (hexChar 0) ++ digits).take 4

theorem length_hexText : ∀ {f len : Nat} {k : Nat}, 16 ^ k ≤ len → k < f →
    k < (Client.hexText f len).length
  | 0, _, _, _, hf => absurd hf (by omega)
  | f + 1, len, 0, _, _ => by simp [Client.hexText]
  | f + 1, len, k + 1, h, hf => by
    rw [Nat.pow_succ] at h
    have hpos : 0 < 16 ^ k := Nat.pow_pos (by omega)
    have hlen : ¬ len < 16 := by omega
    have hdiv : 16 ^ k ≤ len / 16 := by omega
    have := length_hexText hdiv (by omega : k < f)
    simp only [Client.hexText, if_neg hlen, List.length_append, List.length_singleton]
    omega

theorem fourDigits_of_lt {f len : Nat} (h : len < 65536) :
    fourDigits (Client.hexText (f + 4) len) = hexHeader len := by
  unfold hexHeader
  by_cases h1 : len < 16
  · have e1 : len / 4096 % 16 = 0 := by omega
    have e2 : len / 256 % 16 = 0 := by omega
    have e3 : len / 16 % 16 = 0 := by omega
    simp [Client.hexText, h1, fourDigits, e1, e2, e3, List.replicate]
  by_cases h2 : len < 256
  · have e1 : len / 4096 % 16 = 0 := by omega
    have e2 : len / 256 % 16 = 0 := by omega
    have h2' : len / 16 < 16 := by omega
    simp [Client.hexText, h1, h2', fourDigits, e1, e2, List.replicate]
  by_cases h3 : len < 4096
  · have e1 : len / 4096 % 16 = 0 := by omega
    have h2' : ¬ len / 16 < 16 := by omega
    have h3' : len / 256 < 16 := by omega
    have e2 : len / 16 / 16 = len / 256 := by omega
    simp [Client.hexText, h1, h2', h3', fourDigits, e1, e2]
  · have h2' : ¬ len / 16 < 16 := by omega
    have h3' : ¬ len / 256 < 16 := by omega
    have h4' : len / 4096 < 16 := by omega
    have e2 : len / 16 / 16 = len / 256 := by omega
    have e3 : len / 256 / 16 = len / 4096 := by omega
    simp [Client.hexText, h1, h2', h3', h4', fourDigits, e2, e3]

theorem fourDigits_hexText : ∀ {k len : Nat}, len < 65536 * 16 ^ k →
    fourDigits (Client.hexText (k + 4) len) = hexHeader (printed k len)
  | 0, len, h => fourDigits_of_lt (f := 0) (by simpa using h)
  | k + 1, len, h => by
    unfold printed
    split
    · exact fourDigits_of_lt (f := k + 1) ‹_›
    · rename_i hlen
      have hdiv : len / 16 < 65536 * 16 ^ k := by
        rw [Nat.div_lt_iff_lt_mul (by omega)]
        rw [Nat.pow_succ] at h
        omega
      have hlong : 3 < (Client.hexText (k + 4) (len / 16)).length :=
        length_hexText (by omega) (by omega)
      rw [← fourDigits_hexText hdiv]
      have hstep : Client.hexText (k + 1 + 4) len =
          Client.hexText (k + 4) (len / 16) ++ [hexChar (len % 16)] := by
        have h16 : ¬ len < 16 := by omega
        show (if len < 16 then [] else _) ++ _ = _
        rw [if_neg h16]
      have hpad : 4 - (Client.hexText (k + 4) (len / 16)).length = 0 := by omega
      have hpad' : 4 - (Client.hexText (k + 1 + 4) len).length = 0 := by
        rw [hstep, List.length_append]
        omega
      unfold fourDigits
      rw [hpad, hpad', hstep, List.replicate_zero, List.nil_append, List.nil_append,
        List.take_append_of_le_length (by omega)]

theorem clientHeader_eq (len : Nat) :
    Client.header (len % 2 ^ 32) = hexHeader (headerLength len) :=
  fourDigits_hexText (k := 4) (by
    have := Nat.mod_lt len (show 2 ^ 32 > 0 by omega)
    omega)

/-! ## The stream -/

/-- What a client puts on the wire for its payloads. -/
def wire (ps : List Bytes) : Bytes :=
  (ps.map fun p => hexHeader (headerLength p.length) ++ p).flatten

theorem path_clientRest {n : Fd} : ∀ {fuel : Nat} {rest : Bytes} {es : Hist sig},
    rest.length ≤ fuel → (Client.sendRest n fuel rest).Path es (.ok true) → written n es = rest
  | 0, rest, es, hf, h => by
    obtain ⟨rfl, -⟩ := Prog.path_ret_iff.mp h
    exact (List.length_eq_zero_iff.mp (Nat.le_zero.mp hf)).symm
  | fuel + 1, rest, es, hf, h => by
    unfold Client.sendRest at h
    split at h
    · rename_i hnil
      obtain ⟨rfl, -⟩ := Prog.path_ret_iff.mp h
      exact hnil.symm
    · obtain ⟨r, es, rfl, hk⟩ := Prog.path_act_iff.mp h
      match r with
      | some (k + 1) =>
        have hdrop : (rest.drop (k + 1)).length ≤ fuel := by
          rw [List.length_drop]
          omega
        have hrest := path_clientRest hdrop hk
        have hhead : writtenBy n ⟨.send n rest, some (k + 1)⟩ = rest.take (k + 1) := by
          simp [writtenBy]
        rw [written, List.flatMap_cons, hhead, ← written, hrest, List.take_append_drop]
      | some 0 => cases (Prog.path_ret_iff.mp hk).2
      | none => cases (Prog.path_ret_iff.mp hk).2

theorem path_clientSend {n : Fd} {p : Bytes} {es : Hist sig}
    (h : (Client.sendFrame n p).Path es (.ok true)) :
    written n es = hexHeader (headerLength p.length) ++ p := by
  obtain ⟨r, es, rfl, hk⟩ := Prog.path_act_iff.mp h
  rw [Prog.bind_ret] at hk
  by_cases hr : r = some 4
  · subst hr
    have hhead : writtenBy n ⟨.send n (Client.header (p.length % 2 ^ 32)), some 4⟩ =
        hexHeader (headerLength p.length) :=
      (if_pos rfl).trans (by rw [clientHeader_eq]; rfl)
    have hrest : written n es = p := path_clientRest le_rfl hk
    rw [written, List.flatMap_cons, hhead, ← written, hrest]
  · split at hk
    · exact absurd rfl hr
    · cases (Prog.path_ret_iff.mp hk).2

theorem written_wire {n : Fd} {ps : List Bytes} {hs : List (Hist sig)}
    (h : List.Forall₂ (fun p es => (Client.sendFrame n p).Path es (.ok true)) ps hs) :
    hs.flatMap (written n) = wire ps := by
  induction h with
  | nil => rfl
  | cons hp _ ih =>
    rw [List.flatMap_cons, path_clientSend hp, ih]
    rfl

/-! ## What the server makes of it -/

/-- Nothing but headers of length zero, up to the end of the stream or to a header that is refused. -/
inductive Refused : Bytes → Prop
  | consumed : Refused []
  | rejected {acc : Bytes} : 4 ≤ acc.length →
      (∀ v, stoul16 (acc.take 4) = some v → maxFrameSize < v % 2 ^ 32) → Refused acc
  | skipped {acc : Bytes} {v : Nat} : 4 ≤ acc.length → stoul16 (acc.take 4) = some v →
      v % 2 ^ 32 = 0 → Refused (acc.drop 4) → Refused acc

/-- The first payload of more than 16384 bytes gets a header that says so; or its length is a multiple
of `2 ^ 32`, which prints as zero, and its own bytes stop the decoder. -/
def Legible : List Bytes → Prop
  | [] => True
  | p :: ps =>
    if p.length ≤ 16384 then Legible ps
    else 16384 < headerLength p.length ∨
      headerLength p.length = 0 ∧ Refused (p ++ wire ps)

theorem look_header {len : Nat} (h : len < 65536) (more : Bytes) : look (hexHeader len ++ more) =
    if 16384 < len then .fail .tooLarge
    else if len = 0 then .drop more
    else if more.length < len then .wait
    else .item (more.take len) (more.drop len) := by
  have hmod : len % 2 ^ 32 = len := Nat.mod_eq_of_lt (by omega)
  have hlen : (hexHeader len ++ more).length = 4 + more.length := by simp
  have hdrop : (hexHeader len ++ more).drop 4 = more := rfl
  have hhead : stoul16 ((hexHeader len ++ more).take 4) = some len := stoul16_hexHeader h
  rw [look_of_header (by rw [hlen]; omega) hhead]
  simp only [hmod, hlen, Nat.add_lt_add_iff_left, ← List.drop_drop, hdrop]
  rfl

/-- No frame is longer than the limit. -/
theorem item_length {acc x rest : Bytes} (h : look acc = .item x rest) : x.length ≤ 16384 := by
  by_cases hlen : acc.length < 4
  · simp [look_of_short hlen] at h
  cases hv : stoul16 (acc.take 4) with
  | none => simp [look_of_invalid (Nat.not_lt.mp hlen) hv] at h
  | some v =>
    rw [look_of_header (Nat.not_lt.mp hlen) hv] at h
    split_ifs at h with hbig
    obtain ⟨rfl, -⟩ := Look.item.inj h
    have hmax : v % 2 ^ 32 ≤ 16384 := Nat.not_lt.mp hbig
    exact (List.length_take_le _ _).trans hmax

/-- The stream ends in an error, or is used up. -/
def Ended (o : Option FrameErr) (left : Bytes) : Prop := o ≠ none ∨ left = []

theorem refused_rejected {acc : Bytes} {e : FrameErr} (h : look acc = .fail e) : Refused acc := by
  by_cases hlen : acc.length < 4
  · simp [look_of_short hlen] at h
  refine .rejected (Nat.not_lt.mp hlen) fun v hv => ?_
  rw [look_of_header (Nat.not_lt.mp hlen) hv] at h
  split_ifs at h with hbig
  exact hbig

theorem refused_skipped {acc rest : Bytes} (h : look acc = .drop rest) :
    Refused acc ↔ Refused rest := by
  have h4 : 4 ≤ acc.length := by
    by_contra hlen
    simp [look_of_short (Nat.not_le.mp hlen)] at h
  cases hv : stoul16 (acc.take 4) with
  | none => simp [look_of_invalid h4 hv] at h
  | some v =>
    rw [look_of_header h4 hv] at h
    split_ifs at h with hbig hzero
    obtain rfl := Look.drop.inj h
    constructor
    · intro hr
      cases hr with
      | consumed => cases h4
      | rejected _ hall => exact absurd (hall v hv) hbig
      | skipped _ _ _ hr => exact hr
    · exact .skipped h4 hv hzero

/-- A decoder that waits for more, or has a frame, has not refused anything. -/
theorem not_refused {acc : Bytes} (hne : acc ≠ [])
    (h : look acc = .wait ∨ ∃ x rest, look acc = .item x rest) : ¬ Refused acc := by
  intro hr
  cases hr with
  | consumed => exact hne rfl
  | rejected h4 hall =>
    cases hv : stoul16 (acc.take 4) with
    | none => simp [look_of_invalid h4 hv] at h
    | some v =>
      rw [look_of_header h4 hv, if_pos (hall v hv)] at h
      simp at h
  | skipped h4 hv hzero _ =>
    rw [look_of_header h4 hv, if_neg (by rw [hzero]; decide), if_pos hzero] at h
    simp at h

theorem refused_iff {acc left : Bytes} {xs : List Bytes} {o : Option FrameErr}
    (h : Drains look acc xs o left) : Refused acc ↔ xs = [] ∧ Ended o left := by
  induction h with
  | @wait acc hd =>
    by_cases hnil : acc = []
    · subst hnil
      exact ⟨fun _ => ⟨rfl, .inr rfl⟩, fun _ => .consumed⟩
    · refine ⟨fun hr => absurd hr (not_refused hnil (.inl hd)), ?_⟩
      rintro ⟨-, hend | hend⟩
      · exact absurd rfl hend
      · exact absurd hend hnil
  | fail hd => exact ⟨fun _ => ⟨rfl, .inl (by simp)⟩, fun _ => refused_rejected hd⟩
  | drop hd _ ih => rw [refused_skipped hd, ih]
  | @item acc _ _ x xs _ hd _ _ =>
    have hne : acc ≠ [] := by
      rintro rfl
      simp [look_of_short] at hd
    exact ⟨fun hr => absurd hr (not_refused hne (.inr ⟨_, _, hd⟩)), fun hr => by cases hr.1⟩

/-- The next thing the decoder does decides. -/
theorem drains_inv {acc left : Bytes} {xs : List Bytes} {o : Option FrameErr}
    (h : Drains look acc xs o left) :
    (∀ e, look acc = .fail e → xs = [] ∧ o = some e) ∧
    (∀ rest, look acc = .drop rest → Drains look rest xs o left) ∧
    ∀ x rest, look acc = .item x rest → ∃ ys, xs = x :: ys ∧ Drains look rest ys o left := by
  cases h with
  | wait hd => simp [hd]
  | fail hd => simp [hd]
  | drop hd h =>
    refine ⟨by simp [hd], fun rest hr => ?_, by simp [hd]⟩
    obtain rfl := Look.drop.inj (hd.symm.trans hr)
    exact h
  | item hd h =>
    refine ⟨by simp [hd], by simp [hd], fun x rest hr => ?_⟩
    obtain ⟨rfl, rfl⟩ := Look.item.inj (hd.symm.trans hr)
    exact ⟨_, rfl, h⟩

theorem drains_length {acc left : Bytes} {xs : List Bytes} {o : Option FrameErr}
    (h : Drains look acc xs o left) : ∀ x ∈ xs, x.length ≤ 16384 := by
  induction h with
  | wait => simp
  | fail => simp
  | drop _ _ ih => exact ih
  | item hd _ ih =>
    intro x hx
    rcases List.mem_cons.mp hx with rfl | hx
    · exact item_length hd
    · exact ih x hx

/-- **What becomes of a client's stream**: the frames are the payloads up to some point, and the stream
ends there or in an error, exactly if the payloads are legible. -/
theorem legible_iff : ∀ {ps xs : List Bytes} {left : Bytes} {o : Option FrameErr},
    Drains look (wire ps) xs o left →
      (Legible ps ↔ xs <+: ps.filter (· ≠ []) ∧ Ended o left)
  | [], xs, left, o, h => by
    have hempty : Drains look (wire []) [] none [] := .wait (look_of_short (by simp [wire]))
    obtain ⟨rfl, rfl, rfl⟩ := h.det hempty
    simp [Legible, Ended]
  | p :: ps, xs, left, o, h => by
    obtain ⟨hfail, hdrop, hitem⟩ := drains_inv h
    have hwire : wire (p :: ps) = hexHeader (headerLength p.length) ++ (p ++ wire ps) := by
      simp [wire]
    have hlook := look_header (headerLength_lt p.length) (p ++ wire ps)
    rw [← hwire] at hlook
    unfold Legible
    by_cases hsize : p.length ≤ 16384
    · rw [if_pos hsize]
      rw [headerLength_of_lt (by omega), if_neg (by omega)] at hlook
      by_cases hnil : p = []
      · subst hnil
        have hrest := hdrop _ (by simpa using hlook)
        rw [legible_iff hrest]
        simp
      · have hpos : ¬ p.length = 0 := fun h0 => hnil (List.length_eq_zero_iff.mp h0)
        rw [if_neg hpos, if_neg (by simp)] at hlook
        obtain ⟨ys, rfl, hrest⟩ := hitem _ _ hlook
        rw [List.drop_left] at hrest
        rw [legible_iff hrest, List.filter_cons_of_pos (by simpa using hnil)]
        simp
    · rw [if_neg hsize]
      have hnil : p ≠ [] := by
        rintro rfl
        exact hsize (by simp)
      -- none of the frames is as long as the payload that is next
      have hnone : xs <+: (p :: ps).filter (· ≠ []) ↔ xs = [] := by
        refine ⟨fun hpre => ?_, fun h => h ▸ List.nil_prefix⟩
        cases xs with
        | nil => rfl
        | cons x xs =>
          rw [List.filter_cons_of_pos (by simpa using hnil), List.cons_prefix_cons] at hpre
          rw [← hpre.1] at hsize
          exact absurd (drains_length h x (by simp)) hsize
      rw [hnone]
      by_cases hbig : 16384 < headerLength p.length
      · rw [if_pos hbig] at hlook
        obtain ⟨rfl, rfl⟩ := hfail _ hlook
        exact ⟨fun _ => ⟨rfl, .inl (by simp)⟩, fun _ => .inl hbig⟩
      rw [if_neg hbig] at hlook
      by_cases hzero : headerLength p.length = 0
      · rw [if_pos hzero] at hlook
        rw [← refused_iff (hdrop _ hlook)]
        exact ⟨fun hl => (hl.resolve_left hbig).2, fun hr => .inr ⟨hzero, hr⟩⟩
      · rw [if_neg hzero, if_neg] at hlook
        · obtain ⟨ys, rfl, -⟩ := hitem _ _ hlook
          refine ⟨fun hl => ?_, fun hl => by cases hl.1⟩
          exact absurd (hl.resolve_left hbig).1 hzero
        · rw [List.length_append]
          omega

/-! ## Sessions -/

/-- The frames that were returned. -/
def returned (calls : List (Hist sig × Except Err (List Bytes))) : List Bytes :=
  calls.flatMap fun c => c.2.toOption.getD []

/-- What the calls of a session read. -/
def readBy (n : Fd) (calls : List (Hist sig × Except Err (List Bytes))) : Bytes :=
  calls.flatMap fun c => received n c.1

/-- A call that raises is the last one. -/
def EndsAtError (calls : List (Hist sig × Except Err (List Bytes))) : Prop :=
  ∀ c ∈ calls.dropLast, ∃ frames, c.2 = .ok frames

theorem EndsAtError.cons {c : Hist sig × Except Err (List Bytes)}
    {calls : List (Hist sig × Except Err (List Bytes))} (h : EndsAtError calls)
    (hc : ∃ frames, c.2 = .ok frames) : EndsAtError (c :: calls) := by
  intro d hd
  cases calls with
  | nil => cases hd
  | cons e calls =>
    rcases List.mem_cons.mp hd with rfl | hd
    · exact hc
    · exact h d hd

/-- Reading a stream into which `ps` was written, the server returns a prefix of the payloads, without
the empty ones; and when all of the stream has been read, it has raised or used everything. -/
def InSync (n : Fd) (ps : List Bytes) (stream : Bytes) : Prop :=
  ∀ (P : Params) (calls : List (Hist sig × Except Err (List Bytes))) (left : Bytes),
    Decodings P n [] calls left → (∀ c ∈ calls, Open n c.1) → EndsAtError calls →
    readBy n calls <+: stream →
    returned calls <+: ps.filter (· ≠ []) ∧
      (readBy n calls = stream → (∃ c ∈ calls, ∃ e, c.2 = .error e) ∨ left = [])

/-- A session returns what draining at once would, up to an error. -/
theorem Decodings.drains {P : Params} {n : Fd} {acc left : Bytes}
    {calls : List (Hist sig × Except Err (List Bytes))} (h : Decodings P n acc calls left)
    (hw : look acc = .wait) (hopen : ∀ c ∈ calls, Open n c.1) (hend : EndsAtError calls)
    {xs : List Bytes} {o : Option FrameErr} {left' : Bytes}
    (hd : Drains look (acc ++ readBy n calls) xs o left') : returned calls <+: xs ∧
      ((∃ c ∈ calls, ∃ e, c.2 = .error e) ∨ o = none ∧ left = left') := by
  induction h generalizing xs o left' with
  | nil acc =>
    rw [readBy, List.flatMap_nil, List.append_nil] at hd
    obtain ⟨-, rfl, rfl⟩ := hd.det (.wait hw)
    exact ⟨List.nil_prefix, .inr ⟨rfl, rfl⟩⟩
  | @cons acc acc₁ left es out calls hpath hreads _ ih =>
    obtain ⟨ys, o₁, l₁, hd₁⟩ := drains_look (acc ++ received n es)
    obtain ⟨hleft, hout⟩ := path_recvFrame hpath hreads (hopen _ List.mem_cons_self)
    rw [decodeFrames_of_drains hd₁] at hleft hout
    subst hleft hout
    rw [readBy, List.flatMap_cons, ← List.append_assoc, ← readBy] at hd
    cases o₁ with
    | some e =>
      refine ⟨?_, .inl ⟨_, List.mem_cons_self, _, rfl⟩⟩
      cases calls with
      | nil => exact List.nil_prefix
      | cons c calls =>
        obtain ⟨frames, hf⟩ := hend _ List.mem_cons_self
        cases hf
    | none =>
      obtain ⟨zs, o₂, l₂, hd₂⟩ := drains_look (l₁ ++ readBy n calls)
      obtain ⟨rfl, rfl, rfl⟩ := hd.det (hd₁.append steady_look hd₂)
      have hend' : EndsAtError calls := by
        intro c hc
        cases calls with
        | nil => cases hc
        | cons d calls => exact hend c (List.mem_cons_of_mem _ hc)
      obtain ⟨hpre, herr⟩ := ih hd₁.waits (fun c hc => hopen c (List.mem_cons_of_mem _ hc)) hend' hd₂
      refine ⟨?_, herr.imp_left fun ⟨c, hc, he⟩ => ⟨c, List.mem_cons_of_mem _ hc, he⟩⟩
      rw [returned, List.flatMap_cons, ← returned]
      exact (List.prefix_append_right_inj ys).mpr hpre

/-- With one byte more than it waited at, the decoder has nothing left over. -/
theorem prompt_look {acc : Bytes} {b : UInt8} (hw : look acc = .wait) :
    (∀ rest, look (acc ++ [b]) = .drop rest → rest = []) ∧
      ∀ x rest, look (acc ++ [b]) = .item x rest → rest = [] := by
  have hlen : (acc ++ [b]).length = acc.length + 1 := by simp
  by_cases h3 : acc.length < 3
  · have hshort : look (acc ++ [b]) = .wait := look_of_short (by omega)
    simp [hshort]
  have h4 : 4 ≤ (acc ++ [b]).length := by omega
  cases hv : stoul16 ((acc ++ [b]).take 4) with
  | none => simp [look_of_invalid h4 hv]
  | some v =>
    rw [look_of_header h4 hv]
    by_cases h4' : acc.length < 4
    · constructor
      · intro rest h
        split_ifs at h
        rw [← Look.drop.inj h]
        exact List.drop_eq_nil_of_le (by omega)
      · intro x rest h
        split_ifs at h
        rw [← (Look.item.inj h).2]
        exact List.drop_eq_nil_of_le (by omega)
    · -- the header was there before
      have hhead : stoul16 (acc.take 4) = some v := by
        rwa [List.take_append_of_le_length (Nat.not_lt.mp h4')] at hv
      rw [look_of_header (Nat.not_lt.mp h4') hhead] at hw
      split_ifs at hw with hbig hzero hshort
      rw [if_neg hbig, if_neg hzero]
      constructor
      · intro rest h
        split_ifs at h
      · intro x rest h
        split_ifs at h
        rw [← (Look.item.inj h).2]
        exact List.drop_eq_nil_of_le (by omega)

theorem prompt_drains {acc left : Bytes} {b : UInt8} {ys : List Bytes} {e : FrameErr}
    (hw : look acc = .wait) (h : Drains look (acc ++ [b]) ys (some e) left) : ys = [] := by
  obtain ⟨hdrop, hitem⟩ := prompt_look (b := b) hw
  have hnil : ∀ {xs left}, ¬ Drains look [] xs (some e) left := by
    intro xs left hd
    have hempty : Drains look [] [] none [] := .wait (look_of_short (by simp))
    cases (hd.det hempty).2.1
  generalize hacc : acc ++ [b] = s at h
  cases h with
  | fail => rfl
  | drop hd h =>
    obtain rfl := hdrop _ (hacc ▸ hd)
    exact absurd h hnil
  | item hd h =>
    obtain rfl := hitem _ _ (hacc ▸ hd)
    exact absurd h hnil

/-- One call that reads one byte. -/
theorem path_oneByte (n : Fd) (b : UInt8) {acc left : Bytes} {ys : List Bytes}
    {o : Option FrameErr} (h : Drains look (acc ++ [b]) ys o left) :
    (recvFrame sample n).Path [⟨.recv n, .chunk [b]⟩, ⟨.decode n, verdict ys o⟩]
        ((verdict ys o).mapError Err.frame) ∧
      Reads n acc [⟨.recv n, .chunk [b]⟩, ⟨.decode n, verdict ys o⟩] left := by
  constructor
  · refine .act (.act ?_)
    cases o with
    | none => exact .ret ys
    | some e => exact .raise _
  · exact reads_chunk (by simp) (decodeFrames_of_drains h) (.nil left)

/-- A session of one byte a call returns all there is before an error. -/
theorem bytewise {n : Fd} : ∀ {bs acc left : Bytes} {xs : List Bytes} {o : Option FrameErr},
    look acc = .wait → Drains look (acc ++ bs) xs o left →
      ∃ calls left', Decodings sample n acc calls left' ∧ (∀ c ∈ calls, Open n c.1) ∧
        EndsAtError calls ∧ readBy n calls <+: bs ∧ returned calls = xs ∧
        (o = none → readBy n calls = bs ∧ left' = left ∧ ∀ c ∈ calls, ∃ frames, c.2 = .ok frames)
  | [], acc, left, xs, o, hw, h => by
    rw [List.append_nil] at h
    obtain ⟨rfl, rfl, rfl⟩ := h.det (.wait hw)
    exact ⟨[], _, .nil _, by simp, by simp [EndsAtError], by simp [readBy], rfl, by simp [readBy]⟩
  | b :: bs, acc, left, xs, o, hw, h => by
    obtain ⟨ys, o₁, l₁, hd₁⟩ := drains_look (acc ++ [b])
    obtain ⟨hpath, hreads⟩ := path_oneByte n b hd₁
    have hopen : Open n [⟨.recv n, .chunk [b]⟩, ⟨.decode n, verdict ys o₁⟩] := by
      simp [Open]
    have hread : received n [⟨.recv n, .chunk [b]⟩, ⟨.decode n, verdict ys o₁⟩] = [b] := by
      simp [received, receivedBy]
    rw [List.append_cons] at h
    cases o₁ with
    | some e =>
      obtain rfl := prompt_drains hw hd₁
      obtain ⟨rfl, rfl, -⟩ := h.det (hd₁.failed_append steady_look)
      refine ⟨[(_, _)], l₁, .cons hpath hreads (.nil l₁), by simpa using hopen, by simp [EndsAtError],
        ?_, rfl, by simp⟩
      rw [readBy, List.flatMap_cons, hread]
      exact ⟨bs, rfl⟩
    | none =>
      obtain ⟨zs, o₂, l₂, hd₂⟩ := drains_look (l₁ ++ bs)
      obtain ⟨rfl, rfl, rfl⟩ := h.det (hd₁.append steady_look hd₂)
      obtain ⟨calls, left', hdec, hop, hend, hpre, hret, hall⟩ := bytewise (n := n) hd₁.waits hd₂
      refine ⟨(_, _) :: calls, left', .cons hpath hreads hdec, ?_, hend.cons ⟨ys, rfl⟩, ?_, ?_, ?_⟩
      · intro c hc
        rcases List.mem_cons.mp hc with rfl | hc
        · exact hopen
        · exact hop c hc
      · rw [readBy, List.flatMap_cons, hread, ← readBy]
        exact (List.prefix_append_right_inj [b]).mpr hpre
      · rw [returned, List.flatMap_cons, ← returned, hret]
        rfl
      · intro ho
        obtain ⟨hrest, rfl, hok⟩ := hall ho
        refine ⟨?_, rfl, fun c hc => ?_⟩
        · rw [readBy, List.flatMap_cons, hread, ← readBy, hrest]
          rfl
        · rcases List.mem_cons.mp hc with rfl | hc
          · exact ⟨ys, rfl⟩
          · exact hok c hc

/-- The payloads are legible exactly if every session is in sync. -/
theorem inSync_iff (n : Fd) (ps : List Bytes) : InSync n ps (wire ps) ↔ Legible ps := by
  obtain ⟨xs, o, left, hd⟩ := drains_look (wire ps)
  rw [legible_iff hd]
  have hw : look [] = .wait := look_of_short (by simp)
  constructor
  · intro hsync
    obtain ⟨calls, left', hdec, hopen, hend, hpre, rfl, hall⟩ := bytewise (n := n) hw hd
    obtain ⟨hret, hused⟩ := hsync sample calls left' hdec hopen hend hpre
    refine ⟨hret, ?_⟩
    cases o with
    | some e => exact .inl (by simp)
    | none =>
      obtain ⟨hread, rfl, hok⟩ := hall rfl
      refine .inr ((hused hread).resolve_left ?_)
      rintro ⟨c, hc, e, he⟩
      obtain ⟨frames, hf⟩ := hok c hc
      rw [hf] at he
      cases he
  · rintro ⟨hpre, hended⟩ P calls left' hdec hopen hend ⟨more, hmore⟩
    obtain ⟨ys, o₁, l₁, hd₁⟩ := drains_look (readBy n calls)
    obtain ⟨hret, herr⟩ := hdec.drains hw hopen hend (o := o₁) (by simpa using hd₁)
    have hys : ys <+: xs := by
      cases o₁ with
      | none =>
        obtain ⟨zs, o₂, l₂, hd₂⟩ := drains_look (l₁ ++ more)
        have := hd₁.append steady_look hd₂
        rw [hmore] at this
        rw [(hd.det this).1]
        exact List.prefix_append ys zs
      | some e =>
        have : Drains look (readBy n calls ++ more) ys (some e) (l₁ ++ more) :=
          hd₁.failed_append steady_look
        rw [hmore] at this
        rw [(hd.det this).1]
    refine ⟨(hret.trans hys).trans hpre, fun hall => ?_⟩
    rw [hall] at hd₁
    obtain ⟨-, rfl, rfl⟩ := hd.det hd₁
    refine herr.imp_right ?_
    rintro ⟨rfl, rfl⟩
    exact hended.resolve_left (by simp)

/-- **When a client's requests stay in step.** Whatever a client passes to `send_frame`, as long as every
call returns true: the server reads it in sync, however the stream is split, exactly if the payloads
are legible. -/
theorem client_in_sync_iff (m n : Fd) (ps : List Bytes) (hs : List (Hist sig))
    (hsend : List.Forall₂ (fun p es => (Client.sendFrame m p).Path es (.ok true)) ps hs) :
    InSync n ps (hs.flatMap (written m)) ↔ Legible ps := by
  rw [written_wire hsend]
  exact inSync_iff n ps

/-- A payload that goes out in one piece. -/
theorem path_client_whole (n : Fd) {p : Bytes} (hp : p ≠ []) : (Client.sendFrame n p).Path
    [⟨.send n (Client.header (p.length % 2 ^ 32)), some 4⟩, ⟨.send n p, some p.length⟩]
      (.ok true) := by
  have hnil : ∀ fuel, (Client.sendRest n fuel []).Path [] (.ok true) := by
    intro fuel
    cases fuel <;> exact .ret true
  have hrest : ∀ fuel, (Client.sendRest n (fuel + 1) p).Path [⟨.send n p, some p.length⟩]
      (.ok true) := by
    intro fuel
    unfold Client.sendRest
    rw [if_neg hp]
    refine .act ?_
    rw [Prog.bind_ret]
    split
    · rename_i k hk
      have hk' : p.length = k + 1 := Option.some.inj hk
      rw [← hk', List.drop_length]
      exact hnil fuel
    · rename_i hne
      cases p with
      | nil => exact absurd rfl hp
      | cons b bs => exact absurd rfl (hne bs.length)
  refine .act ?_
  have hlen : p.length = p.length - 1 + 1 := by
    have := List.length_pos_iff.mpr hp
    omega
  have := hrest (p.length - 1)
  rwa [← hlen] at this

/-- Two short payloads and between them one of 20000 bytes, which is too long for the server. -/
theorem client_in_sync_hi : ∃ (p : Bytes) (hs : List (Hist sig)), p.length = 20000 ∧
    List.Forall₂ (fun p es => (Client.sendFrame 5 p).Path es (.ok true)) [ascii "hi", p, ascii "yo"] hs ∧
    InSync 7 [ascii "hi", p, ascii "yo"] (hs.flatMap (written 5)) := by
  obtain ⟨p, hp⟩ : ∃ p : Bytes, p.length = 20000 := ⟨List.replicate 20000 97, List.length_replicate⟩
  have hne : p ≠ [] := List.ne_nil_of_length_pos (by omega)
  have hsend : List.Forall₂ (fun p es => (Client.sendFrame 5 p).Path es (.ok true)) [ascii "hi", p, ascii "yo"] _ :=
    .cons (path_client_whole 5 (by decide)) (.cons (path_client_whole 5 hne)
      (.cons (path_client_whole 5 (by decide)) .nil))
  have hlegible : Legible [ascii "hi", p, ascii "yo"] := by
    have hheader : headerLength p.length = 20000 := (headerLength_of_lt (by omega)).trans hp
    rw [Legible, if_pos (by decide), Legible, if_neg (by omega), hheader]
    exact .inl (by decide)
  exact ⟨p, _, hp, hsend, (client_in_sync_iff 5 7 _ _ hsend).mpr hlegible⟩

/-- The header of 65536 bytes says 4096. -/
theorem not_legible {p : Bytes} (hp : p.length = 65536) : p ≠ [] ∧ ¬ Legible [p] := by
  refine ⟨List.ne_nil_of_length_pos (by omega), ?_⟩
  have hlen : headerLength 65536 = 4096 := by decide
  simp [Legible, hp, hlen]

/-- A payload of 65536 bytes: the server returns its first 4096 bytes as a frame. -/
theorem client_out_of_sync : ∃ hs, List.Forall₂
      (fun p es => (Client.sendFrame 5 p).Path es (.ok true)) [List.replicate 65536 97] hs ∧
    ¬ InSync 7 [List.replicate 65536 97] (hs.flatMap (written 5)) := by
  obtain ⟨hne, hlegible⟩ := not_legible (List.length_replicate (n := 65536) (a := (97 : UInt8)))
  have hsend : List.Forall₂ (fun p es => (Client.sendFrame 5 p).Path es (.ok true))
      [List.replicate 65536 97] _ := .cons (path_client_whole 5 hne) .nil
  refine ⟨_, hsend, ?_⟩
  rwa [written_wire hsend, inSync_iff]

end ChatChannel
