import ChatChannel.Proof.ClientFrames

/-!
# The grammar of frames

A frame is four hexadecimal digits and as many bytes as they say. `recv_frame` reads the four
characters with `std::stoul`, which takes more than that: white space, a sign or a `0x` in front and
anything behind. On a stream without such a header it accepts exactly the grammar; one such header
is enough to make it accept something else (`grammar_iff`).
-/

set_option autoImplicit false

namespace ChatChannel

open Conc Incremental

/-! ## Headers and streams -/

/-- Four hexadecimal digits, and the number they stand for. -/
inductive Header : Bytes → Nat → Prop
  | digits {a b c d : UInt8} {x y z w : Nat} : hexVal? a = some x → hexVal? b = some y →
      hexVal? c = some z → hexVal? d = some w → Header [a, b, c, d] (x * 4096 + y * 256 + z * 16 + w)

/-- Complete frames. -/
inductive Frames : Bytes → Prop
  | nil : Frames []
  | cons {h p rest : Bytes} : Header h p.length → p.length ≤ maxFrameSize → Frames rest →
      Frames (h ++ p ++ rest)

/-- Fewer than four bytes, or a header with fewer payload bytes than it announces. -/
def Begun (t : Bytes) : Prop :=
  t.length < 4 ∨ ∃ h p len, t = h ++ p ∧ Header h len ∧ len ≤ maxFrameSize ∧ p.length < len

/-- Complete frames, and what may be there of the next one. -/
def InGrammar (bs : Bytes) : Prop := ∃ fs t, bs = fs ++ t ∧ Frames fs ∧ Begun t

/-- Four characters that are no header, but that `std::stoul` reads as a length that is not too
large. -/
def Lax (h : Bytes) : Prop :=
  h.length = 4 ∧ (∀ len, ¬ Header h len) ∧ ∃ v, stoul16 h = some v ∧ v % 2 ^ 32 ≤ maxFrameSize

/-- However the stream is split into reads and the reads into calls of `recv_frame`: none of the calls
raises if and only if the stream is in the grammar. -/
def Judged (n : Fd) (bs : Bytes) : Prop :=
  ∀ (P : Params) (calls : List (Hist sig × Except Err (List Bytes))) (left : Bytes),
    Decodings P n [] calls left → (∀ c ∈ calls, Open n c.1) → readBy n calls = bs →
    ((∀ c ∈ calls, ∃ frames, c.2 = .ok frames) ↔ InGrammar bs)

/-! ## `std::stoul` on a header -/

/-- A digit is neither white space nor a sign nor an `x`. -/
theorem hexVal_spec {c : UInt8} {x : Nat} (h : hexVal? c = some x) :
    x < 16 ∧ isSpace c = false ∧ c ≠ 43 ∧ c ≠ 45 ∧ c ≠ 120 ∧ c ≠ 88 := by
  have hall : ∀ k : Fin 256, ∀ y, hexVal? (UInt8.ofNat k) = some y → y < 16 ∧
      isSpace (UInt8.ofNat k) = false ∧ UInt8.ofNat k ≠ 43 ∧ UInt8.ofNat k ≠ 45 ∧
      UInt8.ofNat k ≠ 120 ∧ UInt8.ofNat k ≠ 88 := by
    have hdec : ∀ k : Fin 256, (hexVal? (UInt8.ofNat k)).all (fun y => decide (y < 16 ∧
        isSpace (UInt8.ofNat k) = false ∧ UInt8.ofNat k ≠ 43 ∧ UInt8.ofNat k ≠ 45 ∧
        UInt8.ofNat k ≠ 120 ∧ UInt8.ofNat k ≠ 88)) = true := by decide +kernel
    intro k y hy
    have hk := hdec k
    rw [hy] at hk
    exact of_decide_eq_true hk
  have hc := hall ⟨c.toNat, c.toNat_lt⟩ x
  rw [show UInt8.ofNat (⟨c.toNat, c.toNat_lt⟩ : Fin 256) = c from UInt8.ofNat_toNat] at hc
  exact hc h

theorem Header.length {h : Bytes} {len : Nat} (hh : Header h len) : h.length = 4 := by
  cases hh
  rfl

theorem Header.lt {h : Bytes} {len : Nat} (hh : Header h len) : len < 65536 := by
  cases hh with
  | digits ha hb hc hd =>
    have ha := (hexVal_spec ha).1
    have hb := (hexVal_spec hb).1
    have hc := (hexVal_spec hc).1
    have hd := (hexVal_spec hd).1
    omega

/-- `std::stoul` reads a header as the number it stands for. -/
theorem stoul16_header {h : Bytes} {len : Nat} (hh : Header h len) : stoul16 h = some len := by
  cases hh with
  | @digits a b c d x y z w ha hb hc hd =>
    obtain ⟨-, hspace, hplus, hminus, -, -⟩ := hexVal_spec ha
    obtain ⟨-, -, -, -, hx, hX⟩ := hexVal_spec hb
    have hrun : hexRun 0 [a, b, c, d] = x * 4096 + y * 256 + z * 16 + w := by
      simp only [hexRun, ha, hb, hc, hd]
      omega
    have hdigits : hexDigits [a, b, c, d] = some (x * 4096 + y * 256 + z * 16 + w) := by
      unfold hexDigits
      split
      · rename_i x' y' cs heq
        simp only [List.cons.injEq] at heq
        obtain ⟨rfl, rfl, -⟩ := heq
        simp [hx, hX, hrun]
      · rename_i x' cs _ heq
        simp only [List.cons.injEq] at heq
        obtain ⟨rfl, -⟩ := heq
        simp [ha, hrun]
      · rename_i heq
        cases heq
    unfold stoul16
    rw [List.dropWhile_cons_of_neg (by simp [hspace])]
    split
    · rename_i cs heq
      simp only [List.cons.injEq] at heq
      exact absurd heq.1 hplus
    · rename_i cs heq
      simp only [List.cons.injEq] at heq
      exact absurd heq.1 hminus
    · exact hdigits

theorem Header.det {h : Bytes} {len len' : Nat} (hh : Header h len) (hh' : Header h len') :
    len = len' :=
  Option.some.inj ((stoul16_header hh).symm.trans (stoul16_header hh'))

/-- Four characters that are read as an acceptable length and are not lax are a header. -/
theorem header_of_not_lax {h : Bytes} {v : Nat} (hlen : h.length = 4) (hl : ¬ Lax h)
    (hv : stoul16 h = some v) (hsize : v % 2 ^ 32 ≤ maxFrameSize) :
    Header h v ∧ v % 2 ^ 32 = v := by
  have hex : ∃ len, Header h len := by
    by_contra hno
    exact hl ⟨hlen, fun len hh => hno ⟨len, hh⟩, v, hv, hsize⟩
  obtain ⟨len, hh⟩ := hex
  obtain rfl : v = len := Option.some.inj (hv.symm.trans (stoul16_header hh))
  have := hh.lt
  exact ⟨hh, Nat.mod_eq_of_lt (by omega)⟩

/-! ## Peeling frames off -/

theorem append_header {h h' p p' : Bytes} (hl : h.length = 4) (hl' : h'.length = 4)
    (heq : h ++ p = h' ++ p') : h = h' ∧ p = p' :=
  List.append_inj heq (hl.trans hl'.symm)

/-- Behind a complete frame the grammar begins again. -/
theorem inGrammar_frame {h p rest : Bytes} (hh : Header h p.length) (hp : p.length ≤ maxFrameSize) :
    InGrammar (h ++ p ++ rest) ↔ InGrammar rest := by
  constructor
  · rintro ⟨fs, t, heq, hfs, ht⟩
    cases hfs with
    | nil =>
      rw [List.nil_append, List.append_assoc] at heq
      rcases ht with hshort | ⟨h', p', len, rfl, hh', -, hlt⟩
      · rw [← heq, List.length_append, hh.length] at hshort
        omega
      · obtain ⟨rfl, rfl⟩ := append_header hh.length hh'.length heq
        rw [← hh.det hh', List.length_append] at hlt
        omega
    | @cons h' p' fs hh' hp' hfs =>
      have heq : h ++ (p ++ rest) = h' ++ (p' ++ (fs ++ t)) := by simpa using heq
      obtain ⟨rfl, hrest⟩ := append_header hh.length hh'.length heq
      obtain ⟨-, rfl⟩ := List.append_inj hrest (hh.det hh')
      exact ⟨fs, t, rfl, hfs, ht⟩
  · rintro ⟨fs, t, rfl, hfs, ht⟩
    exact ⟨h ++ p ++ fs, t, by simp, .cons hh hp hfs, ht⟩

theorem inGrammar_frames {fs rest : Bytes} (hf : Frames fs) :
    InGrammar (fs ++ rest) ↔ InGrammar rest := by
  induction hf with
  | nil => rfl
  | cons hh hp _ ih => rw [List.append_assoc, inGrammar_frame hh hp, ih]

/-- A stream of four bytes or more that is in the grammar begins with a header. -/
theorem InGrammar.header {bs : Bytes} (h : InGrammar bs) (h4 : 4 ≤ bs.length) :
    ∃ len, Header (bs.take 4) len ∧ len ≤ maxFrameSize := by
  obtain ⟨fs, t, rfl, hfs, ht⟩ := h
  cases hfs with
  | nil =>
    rcases ht with hshort | ⟨h, p, len, rfl, hh, hlen, -⟩
    · exact absurd h4 (by simpa using hshort)
    · rw [List.nil_append, List.take_left' hh.length]
      exact ⟨len, hh, hlen⟩
  | @cons h p fs hh hp =>
    rw [List.append_assoc, List.append_assoc, List.take_left' hh.length]
    exact ⟨_, hh, hp⟩

/-! ## The decoder and the grammar -/

/-- No lax header stands where `recv_frame` looks for one. -/
def Strict (bs : Bytes) : Prop := ∀ fs h rest, Frames fs → bs = fs ++ h ++ rest → ¬ Lax h

theorem Strict.head {bs : Bytes} (h : Strict bs) : ¬ Lax (bs.take 4) :=
  h [] (bs.take 4) (bs.drop 4) .nil (by simp)

theorem Strict.tail {h p rest : Bytes} (hp : Strict (h ++ p ++ rest)) (hh : Header h p.length)
    (hsize : p.length ≤ maxFrameSize) : Strict rest := by
  intro fs h' rest' hfs heq
  exact hp (h ++ p ++ fs) h' rest' (.cons hh hsize hfs) (by simp [heq])

theorem Strict.prefix_of {p bs : Bytes} (h : Strict bs) (hp : p <+: bs) : Strict p := by
  obtain ⟨more, rfl⟩ := hp
  intro fs h' rest hfs heq
  exact h fs h' (rest ++ more) hfs (by simp [heq])

/-- **Without lax headers the decoder raises no error exactly on the grammar.** -/
theorem drains_inGrammar {bs left : Bytes} {xs : List Bytes} {o : Option FrameErr}
    (hd : Drains look bs xs o left) (hp : Strict bs) : o = none ↔ InGrammar bs := by
  have hhead {bs : Bytes} (h4 : 4 ≤ bs.length) : (bs.take 4).length = 4 := by
    rw [List.length_take]
    omega
  induction hd with
  | @wait acc hw =>
    refine ⟨fun _ => ?_, fun _ => rfl⟩
    by_cases h4 : acc.length < 4
    · exact ⟨[], acc, rfl, .nil, .inl h4⟩
    have h4 := Nat.not_lt.mp h4
    cases hv : stoul16 (acc.take 4) with
    | none => simp [look_of_invalid h4 hv] at hw
    | some v =>
      rw [look_of_header h4 hv] at hw
      split_ifs at hw with hbig hzero hshort
      obtain ⟨hh, hmod⟩ := header_of_not_lax (hhead h4) hp.head hv (Nat.not_lt.mp hbig)
      rw [hmod] at hshort hbig
      refine ⟨[], acc, rfl, .nil, .inr ⟨acc.take 4, acc.drop 4, v, by simp, hh,
        Nat.not_lt.mp hbig, ?_⟩⟩
      rw [List.length_drop]
      omega
  | @fail acc e hf =>
    refine ⟨fun h => absurd h (by simp), fun hg => ?_⟩
    have h4 : 4 ≤ acc.length := by
      by_contra hlt
      simp [look_of_short (Nat.not_le.mp hlt)] at hf
    obtain ⟨len, hh, hlen⟩ := hg.header h4
    have hlt := hh.lt
    rw [look_of_header h4 (stoul16_header hh), Nat.mod_eq_of_lt (by omega),
      if_neg (Nat.not_lt.mpr hlen)] at hf
    split_ifs at hf
  | @drop acc rest left xs o hdrop _ ih =>
    have h4 : 4 ≤ acc.length := by
      by_contra hlt
      simp [look_of_short (Nat.not_le.mp hlt)] at hdrop
    cases hv : stoul16 (acc.take 4) with
    | none => simp [look_of_invalid h4 hv] at hdrop
    | some v =>
      rw [look_of_header h4 hv] at hdrop
      split_ifs at hdrop with hbig hzero
      obtain ⟨hh, hmod⟩ := header_of_not_lax (hhead h4) hp.head hv (Nat.not_lt.mp hbig)
      obtain rfl : v = 0 := hmod.symm.trans hzero
      obtain rfl := Look.drop.inj hdrop
      have hacc : acc = acc.take 4 ++ [] ++ acc.drop 4 := by simp
      rw [hacc] at hp
      have hframe : InGrammar (acc.take 4 ++ [] ++ acc.drop 4) ↔ InGrammar (acc.drop 4) :=
        inGrammar_frame hh (Nat.zero_le _)
      rw [← hacc] at hframe
      exact (ih (hp.tail hh (Nat.zero_le _))).trans hframe.symm
  | @item acc rest left x xs o hitem _ ih =>
    have h4 : 4 ≤ acc.length := by
      by_contra hlt
      simp [look_of_short (Nat.not_le.mp hlt)] at hitem
    cases hv : stoul16 (acc.take 4) with
    | none => simp [look_of_invalid h4 hv] at hitem
    | some v =>
      rw [look_of_header h4 hv] at hitem
      split_ifs at hitem with hbig hzero hshort
      obtain ⟨hh, hmod⟩ := header_of_not_lax (hhead h4) hp.head hv (Nat.not_lt.mp hbig)
      rw [hmod] at hitem hshort hbig
      obtain ⟨rfl, rfl⟩ := Look.item.inj hitem
      have hx : ((acc.drop 4).take v).length = v := by
        rw [List.length_take, List.length_drop]
        omega
      have hacc : acc = acc.take 4 ++ (acc.drop 4).take v ++ acc.drop (4 + v) := by
        rw [List.append_assoc, ← List.drop_drop, List.take_append_drop, List.take_append_drop]
      have hh' : Header (acc.take 4) ((acc.drop 4).take v).length := by rwa [hx]
      have hsize : ((acc.drop 4).take v).length ≤ maxFrameSize := by
        rw [hx]
        exact Nat.not_lt.mp hbig
      have hframe : InGrammar (acc.take 4 ++ (acc.drop 4).take v ++ acc.drop (4 + v)) ↔
          InGrammar (acc.drop (4 + v)) := inGrammar_frame hh' hsize
      rw [← hacc] at hframe
      rw [hacc] at hp
      exact (ih (hp.tail hh' hsize)).trans hframe.symm

/-- None of the calls raises if and only if draining what they read at once does not. -/
theorem Decodings.settled {P : Params} {n : Fd} {acc left : Bytes}
    {calls : List (Hist sig × Except Err (List Bytes))} (h : Decodings P n acc calls left)
    (hw : look acc = .wait) (hopen : ∀ c ∈ calls, Open n c.1) {xs : List Bytes}
    {o : Option FrameErr} {left' : Bytes} (hd : Drains look (acc ++ readBy n calls) xs o left') :
    (∀ c ∈ calls, ∃ frames, c.2 = .ok frames) ↔ o = none := by
  induction h generalizing xs o left' with
  | nil acc =>
    rw [readBy, List.flatMap_nil, List.append_nil] at hd
    obtain ⟨-, rfl, -⟩ := hd.det (.wait hw)
    simp
  | @cons acc acc₁ left es out calls hpath hreads _ ih =>
    obtain ⟨ys, o₁, l₁, hd₁⟩ := drains_look (acc ++ received n es)
    obtain ⟨hleft, hout⟩ := path_recvFrame hpath hreads (hopen _ List.mem_cons_self)
    rw [decodeFrames_of_drains hd₁] at hleft hout
    subst hleft hout
    rw [readBy, List.flatMap_cons, ← List.append_assoc, ← readBy] at hd
    cases o₁ with
    | some e =>
      obtain ⟨-, rfl, -⟩ := hd.det (hd₁.failed_append steady_look)
      refine ⟨fun hall => ?_, fun h => absurd h (by simp)⟩
      obtain ⟨frames, hf⟩ := hall _ List.mem_cons_self
      cases hf
    | none =>
      obtain ⟨zs, o₂, l₂, hd₂⟩ := drains_look (l₁ ++ readBy n calls)
      obtain ⟨-, rfl, -⟩ := hd.det (hd₁.append steady_look hd₂)
      rw [← ih hd₁.waits (fun c hc => hopen c (List.mem_cons_of_mem _ hc)) hd₂]
      constructor
      · intro hall c hc
        exact hall c (List.mem_cons_of_mem _ hc)
      · intro hall c hc
        rcases List.mem_cons.mp hc with rfl | hc
        · exact ⟨ys, rfl⟩
        · exact hall c hc

/-- Complete frames in front do not stop the decoder. -/
theorem drains_frames {fs rest left : Bytes} {xs : List Bytes} {o : Option FrameErr}
    (hf : Frames fs) (hd : Drains look rest xs o left) :
    ∃ ys, Drains look (fs ++ rest) ys o left := by
  induction hf with
  | nil => exact ⟨xs, hd⟩
  | @cons h p fs hh hp _ ih =>
    obtain ⟨ys, hys⟩ := ih
    have hlt := hh.lt
    have hlen : (h ++ p ++ fs ++ rest).length = 4 + p.length + (fs ++ rest).length := by
      simp [hh.length]
      omega
    have hhead : (h ++ p ++ fs ++ rest).take 4 = h := by
      rw [List.append_assoc, List.append_assoc, List.take_left' hh.length]
    have hdrop : (h ++ p ++ fs ++ rest).drop 4 = p ++ (fs ++ rest) := by
      rw [List.append_assoc, List.append_assoc, List.drop_left' hh.length]
    have hlook := look_of_header (by omega) (by rw [hhead, stoul16_header hh] :
      stoul16 ((h ++ p ++ fs ++ rest).take 4) = some p.length)
    rw [Nat.mod_eq_of_lt (by omega), if_neg (Nat.not_lt.mpr hp), ← List.drop_drop, hdrop,
      List.drop_left, List.take_left] at hlook
    by_cases h0 : p.length = 0
    · obtain rfl := List.length_eq_zero_iff.mp h0
      rw [if_pos h0] at hlook
      exact ⟨ys, .drop hlook hys⟩
    · rw [if_neg h0, if_neg (by omega)] at hlook
      exact ⟨p :: ys, .item hlook hys⟩

/-- A lax header on its own is not refused. -/
theorem drains_lax {h : Bytes} (hl : Lax h) : ∃ left, Drains look h [] none left := by
  obtain ⟨hlen, -, v, hv, hsize⟩ := hl
  have htake : h.take 4 = h := List.take_of_length_le (by omega)
  have hlook := look_of_header (by omega : 4 ≤ h.length) (by rw [htake, hv])
  rw [if_neg (Nat.not_lt.mpr hsize)] at hlook
  by_cases h0 : v % 2 ^ 32 = 0
  · rw [if_pos h0] at hlook
    rw [List.drop_eq_nil_of_le (by omega)] at hlook
    exact ⟨[], .drop hlook (.wait (look_of_short (by simp)))⟩
  · rw [if_neg h0, if_pos (by omega)] at hlook
    exact ⟨h, .wait hlook⟩

/-- **The grammar of frames.** On every prefix of a stream, which is to say at whatever byte the stream
has arrived, `recv_frame` has raised no error if and only if the prefix is in the grammar, exactly if
behind complete frames the stream has no four characters that `std::stoul` takes for a length and that
are not four hexadecimal digits. -/
theorem grammar_iff (n : Fd) (bs : Bytes) : (∀ p, p <+: bs → Judged n p) ↔ Strict bs := by
  have hw : look [] = .wait := look_of_short (by simp)
  constructor
  · rintro hall fs h rest hfs rfl hl
    obtain ⟨left, hdh⟩ := drains_lax hl
    obtain ⟨ys, hd⟩ := drains_frames hfs hdh
    obtain ⟨calls, left', hdec, hopen, -, -, -, hend⟩ :=
      @bytewise n (fs ++ h) [] left ys none hw hd
    obtain ⟨hread, -, hok⟩ := hend rfl
    have hg := (hall (fs ++ h) (List.prefix_append _ _) _ calls left' hdec hopen hread).mp hok
    rw [inGrammar_frames hfs] at hg
    obtain ⟨len, hh, -⟩ := hg.header (Nat.le_of_eq hl.1.symm)
    rw [List.take_of_length_le (Nat.le_of_eq hl.1)] at hh
    exact hl.2.1 len hh
  · rintro hp p hpre P calls left hdec hopen rfl
    obtain ⟨xs, o, left', hd⟩ := drains_look (readBy n calls)
    rw [hdec.settled hw hopen (by simpa using hd)]
    exact drains_inGrammar hd (hp.prefix_of hpre)

/-- `0x02` and two bytes: a frame for `recv_frame`, and no word of the grammar. -/
theorem grammar_exceeded : ¬ Judged 5 (ascii "0x02hi") := by
  intro hj
  have hlax : Lax (ascii "0x02") := by
    refine ⟨rfl, fun len hh => ?_, 2, by decide, by decide⟩
    have hascii : ascii "0x02" = [48, 120, 48, 50] := by decide
    rw [hascii] at hh
    cases hh with
    | digits _ hx _ _ => exact absurd hx (by simp [hexVal?])
  have hw : look [] = .wait := look_of_short (by simp)
  have hd : Drains look (ascii "0x02hi") [ascii "hi"] none [] :=
    drains_of_decodeFrames (by decide)
  obtain ⟨calls, left, hdec, hopen, -, -, -, hend⟩ :=
    @bytewise 5 (ascii "0x02hi") [] [] [ascii "hi"] none hw hd
  obtain ⟨hread, -, hok⟩ := hend rfl
  have hg := (hj _ calls left hdec hopen hread).mp hok
  obtain ⟨len, hh, -⟩ := hg.header (by decide)
  exact hlax.2.1 len hh

end ChatChannel
