import ChatChannel.Model.Server
import ChatChannel.Proof.Order
import ChatChannel.Proof.Session

/-!
# Requests from the keyboard

A line becomes a JSON object, the object a frame, and the frame a call in the server. The Linux client leaves the
object to Jansson, the Windows client writes it itself. Of Jansson it is assumed that it reads the flat objects of
`Json` as what they are (`Understands`) and that it writes such objects (`Renders`).
-/

set_option autoImplicit false

namespace ChatChannel.Client

open Conc Incremental

/-! ## The JSON library -/

/-- `json_loads` reads an object of strings and integers, and finds its members. -/
def Understands (js : Jansson) : Prop :=
  ∀ s m, Json.Utf8 s → Json.Obj s m → ∃ root, js.loads s = some root ∧
    ∀ key, js.str root key = Json.str? m key ∧ js.int root key = Json.int? m key

/-- What `json_pack` takes: UTF-8 without a 0, and what a `json_int_t` holds. -/
def Packable : PackVal → Prop
  | .str s => Json.Utf8 s ∧ 0 ∉ s
  | .int i => -2 ^ 63 ≤ i ∧ i < 2 ^ 63

/-- `json_pack` and `json_dumps` write an object with these members, in whatever order. -/
def Renders (lib : Library) : Prop :=
  ∀ members : List (Bytes × PackVal), (∀ p ∈ members, Packable (.str p.1) ∧ Packable p.2) →
    ∃ text m, Linux.render lib members = some text ∧ Json.Utf8 text ∧ Json.Obj text m ∧
      ∀ key, Json.lookup m key = Json.lookup (members.map fun p => (p.1, valueOf p.2)) key

/-! ## What lines ask for -/

/-- What a line asks for. -/
inductive Request
  | message (text : Bytes)
  | join (channelId : Int)
  deriving DecidableEq

/-- `/join` with something that is not a number asks for nothing. -/
def Request.ofLine (line : Bytes) : Option Request :=
  if ascii "/join " <+: line then (stoiText (line.drop 6)).map .join else some (.message line)

/-- The members of a request, with the time at which it is made. -/
def Request.members (now : Msec64) : Request → List (Bytes × PackVal)
  | .message text => Linux.messageRequest text now
  | .join channelId => Linux.joinRequest channelId now

/-- What channel `c` does about a request of `n`. -/
def Request.serve (c : ChId) (n : Fd) (now : Msec64) : Request → Code Unit
  | .message text => do
    match ← call (.getUserName n) with
    | none => pure ()
    | some userName => call (.pushMq n ⟨.user, text, now, userName, 0⟩)
  | .join channelId =>
    if toChId channelId = c then pure ()
    else do
      let ptr ← call .newJoinReq
      call (.report n ptr ⟨c, toChId channelId, now⟩)

/-- The frame is a request: every channel does as much about it. -/
def Serves (P : Params) (payload : Bytes) (now : Msec64) (r : Request) : Prop :=
  ∀ c n, onFrame P (.chan c) n payload = (do call (.onFrame n payload); r.serve c n now)

/-! ## Numbers -/

theorem toMsec64_asJsonInt (t : Msec64) : toMsec64 (asJsonInt t) = t := by
  rw [← asJsonInt_inj]
  have ht := t.toNat_lt
  apply asJsonInt_toMsec64
  · unfold asJsonInt
    split <;> omega
  · unfold asJsonInt
    split <;> omega

theorem asJsonInt_packable (t : Msec64) : Packable (.int (asJsonInt t)) := by
  have ht := t.toNat_lt
  show -2 ^ 63 ≤ asJsonInt t ∧ asJsonInt t < 2 ^ 63
  unfold asJsonInt
  split <;> omega

theorem stoi_bounds {s : Bytes} {i : Int} (h : stoi s = some i) : -2 ^ 31 ≤ i ∧ i < 2 ^ 31 := by
  unfold stoi at h
  dsimp only at h
  generalize ((if s.head? = some 45 then s.drop 1 else s).takeWhile decimal) = ds at h
  generalize (if s.head? = some 45 then -(digitsValue ds : Int) else digitsValue ds) = v at h
  by_cases hno : ds = [] ∨ v < -2 ^ 31 ∨ 2 ^ 31 ≤ v
  · rw [if_pos hno] at h
    cases h
  · rw [if_neg hno] at h
    cases h
    omega

theorem stoiText_bounds {s : Bytes} {i : Int} (h : stoiText s = some i) : -2 ^ 31 ≤ i ∧ i < 2 ^ 31 := by
  unfold stoiText at h
  split at h
  · split at h
    · cases h
    · exact stoi_bounds h
  · exact stoi_bounds h

/-! ## A request is served -/

theorem lookup_message (text : Bytes) (now : Msec64) {m : Json.Members}
    (hm : ∀ key, Json.lookup m key =
      Json.lookup ((Linux.messageRequest text now).map fun p => (p.1, valueOf p.2)) key) :
    Json.str? m (ascii "type") = some (ascii "message") ∧ Json.str? m (ascii "text") = some text ∧
      Json.int? m (ascii "timestamp") = some (asJsonInt now) := by
  unfold Json.str? Json.int?
  rw [hm, hm, hm]
  exact ⟨rfl, rfl, rfl⟩

theorem lookup_join (channelId : Int) (now : Msec64) {m : Json.Members}
    (hm : ∀ key, Json.lookup m key =
      Json.lookup ((Linux.joinRequest channelId now).map fun p => (p.1, valueOf p.2)) key) :
    Json.str? m (ascii "type") = some (ascii "join") ∧ Json.int? m (ascii "channel_id") = some channelId ∧
      Json.int? m (ascii "timestamp") = some (asJsonInt now) := by
  unfold Json.str? Json.int?
  rw [hm, hm, hm]
  exact ⟨rfl, rfl, rfl⟩

/-- An object is read where it stands: the text has no 0 that would cut it off. -/
theorem requestOf_obj {js : Jansson} (hu : Understands js) {s target : Bytes} {m : Json.Members} (hs : Json.Utf8 s)
    (ho : Json.Obj s m) (ht : Json.str? m (ascii "type") = some target) :
    ∃ root, requestOf js s = some (target, root) ∧
      ∀ key, js.str root key = Json.str? m key ∧ js.int root key = Json.int? m key := by
  obtain ⟨root, hload, hread⟩ := hu s m hs ho
  have hcut : s.takeWhile (· ≠ 0) = s := by
    rw [List.takeWhile_eq_self_iff]
    intro c hc
    have hne : c ≠ 0 := by
      rintro rfl
      exact ho.nonzero hc
    exact decide_eq_true hne
  refine ⟨root, ?_, hread⟩
  unfold requestOf
  rw [hcut, hload]
  simp [(hread _).1, ht]

/-- **A frame that denotes a request is served as that request.** -/
theorem serves_of_obj {P : Params} (hu : Understands P.js) {now : Msec64} {r : Request} {s : Bytes} {m : Json.Members}
    (hs : Json.Utf8 s) (ho : Json.Obj s m)
    (hm : ∀ key, Json.lookup m key = Json.lookup ((r.members now).map fun p => (p.1, valueOf p.2)) key) :
    Serves P s now r := by
  intro c n
  cases r with
  | message text =>
    obtain ⟨htype, htext, htime⟩ := lookup_message text now hm
    obtain ⟨root, hreq, hread⟩ := requestOf_obj hu hs ho htype
    have hunpack : unpackMessage P.js root = some (text, now) := by
      unfold unpackMessage
      rw [(hread _).1, (hread _).2, htext, htime]
      show some (text, toMsec64 (asJsonInt now)) = _
      rw [toMsec64_asJsonInt]
    have hmessage : isMessage (ascii "message") = true := by decide
    unfold onFrame
    rw [hreq]
    dsimp only
    rw [channelOnReq, if_pos hmessage, chatOnReq, if_pos hmessage, hunpack]
    rfl
  | join channelId =>
    obtain ⟨htype, hid, htime⟩ := lookup_join channelId now hm
    obtain ⟨root, hreq, hread⟩ := requestOf_obj hu hs ho htype
    have hunpack : unpackChannelJoin P.js root = some (toChId channelId, now) := by
      unfold unpackChannelJoin
      rw [(hread _).2, (hread _).2, hid, htime]
      show some (toChId channelId, toMsec64 (asJsonInt now)) = _
      rw [toMsec64_asJsonInt]
    have hjoin : isMessage (ascii "join") = false ∧ isJoin (ascii "join") = true := by decide
    unfold onFrame
    rw [hreq]
    dsimp only
    rw [channelOnReq, if_neg (by rw [hjoin.1]; exact Bool.false_ne_true), if_pos hjoin.2, hunpack]
    rfl

/-! ## Texts of numbers -/

theorem head_digits {n : Nat} (h : 0 < n) : (FlatJson.digits n).head? ≠ some 48 := by
  have hsmall : ∀ k : Fin 10, 0 < k.val → (FlatJson.digits k.val).head? ≠ some 48 := by decide
  induction n using Nat.strongRecOn with
  | ind n ih =>
    by_cases hlt : n < 10
    · exact hsmall ⟨n, hlt⟩ h
    · have hge := Nat.not_lt.mp hlt
      have hrest := ih (n / 10) (Nat.div_lt_self h (by decide)) (Nat.div_pos hge (by decide))
      have hsplit : FlatJson.digits n = FlatJson.digits (n / 10) ++ [(n % 10).digitChar.toNat.toUInt8] := by
        unfold FlatJson.digits
        rw [Nat.toDigits_of_base_le (by decide) hge, List.map_append]
        rfl
      rw [hsplit, List.head?_append_of_ne_nil _ (digits_ne_nil _)]
      exact hrest

theorem numeral_digits (n : Nat) : Json.Numeral (FlatJson.digits n) where
  digits := fun _ hc => decimal_digits hc
  nonempty := digits_ne_nil n
  canonical := by
    intro hzero
    rcases Nat.eq_zero_or_pos n with rfl | hpos
    · rfl
    · exact absurd hzero (head_digits hpos)

theorem value_digits (n : Nat) : Json.value (FlatJson.digits n) = n := digitsValue_digits n

/-- A number that a `json_int_t` holds is written as that number. -/
theorem integer_decimalText {i : Int} (h : -2 ^ 63 ≤ i) (h' : i < 2 ^ 63) : Json.Integer (decimalText i) i := by
  unfold decimalText
  by_cases hneg : i < 0
  · have hval : -(i.natAbs : Int) = i := by omega
    have hint := Json.Integer.negative (numeral_digits i.natAbs) (by rw [value_digits]; omega)
    rw [value_digits, hval] at hint
    rw [if_pos hneg]
    exact hint
  · have hval : (i.natAbs : Int) = i := by omega
    have hint := Json.Integer.natural (numeral_digits i.natAbs) (by rw [value_digits]; omega)
    rw [value_digits, hval] at hint
    rw [if_neg hneg]
    exact hint

theorem decimalText_utf8 (i : Int) : Json.Utf8 (decimalText i) := by
  apply Json.utf8_of_ascii
  intro c hc
  unfold decimalText at hc
  rcases List.mem_append.mp hc with hc | hc
  · split at hc
    · rw [List.mem_singleton.mp hc]
      decide
    · cases hc
  · have hdec := decimal_digits hc
    unfold decimal at hdec
    rw [Bool.and_eq_true, decide_eq_true_iff, decide_eq_true_iff] at hdec
    exact UInt8.lt_of_le_of_lt hdec.2 (by decide)

/-- A literal. -/
theorem literal_utf8 {s : Bytes} (h : s.all (fun c => decide (c < 128)) = true) : Json.Utf8 s :=
  Json.utf8_of_ascii (forall_of_all h)

/-! ## The library meets the assumptions -/

theorem understands_flat : Understands flatJansson := by
  intro s m _ ho
  exact ⟨m, Json.object?_of_obj ho, fun _ => ⟨rfl, rfl⟩⟩

theorem code_control : ∀ k : Fin 32, 0 < k.val →
    Json.code? 48 48 (upperHex (.ofNat k.val / 16)) (upperHex (.ofNat k.val % 16)) = some (.ofNat k.val) := by
  decide

theorem chars_escapeChar {c : UInt8} (h : c ≠ 0) : Json.Chars (escapeChar c) [c] := by
  unfold escapeChar
  split_ifs with h34 h92 h8 h9 h10 h12 h13 h32
  · subst h34
    exact .short rfl .nil
  · subst h92
    exact .short rfl .nil
  · subst h8
    exact .short rfl .nil
  · subst h9
    exact .short rfl .nil
  · subst h10
    exact .short rfl .nil
  · subst h12
    exact .short rfl .nil
  · subst h13
    exact .short rfl .nil
  · have hpos : 0 < c.toNat := Nat.pos_of_ne_zero fun h0 => h (UInt8.toNat_inj.mp h0)
    have hcode := code_control ⟨c.toNat, UInt8.lt_iff_toNat_lt.mp h32⟩ hpos
    rw [UInt8.ofNat_toNat] at hcode
    exact .code hcode .nil
  · exact .plain (UInt8.not_lt.mp h32) h34 h92 .nil

theorem chars_escape {s : Bytes} (h : 0 ∉ s) : Json.Chars (escape s) s := by
  apply Json.Chars.flatMap
  intro c hc
  apply chars_escapeChar
  rintro rfl
  exact h hc

theorem escapeChar_low : ∀ k : Fin 128, (escapeChar (.ofNat k.val)).all (fun d => decide (d < 128)) = true := by
  decide

theorem escape_utf8 {s : Bytes} (h : Json.Utf8 s) : Json.Utf8 (escape s) := by
  refine Json.Utf8.flatMap (fun c hc => ?_) (fun c hc => ?_) h
  · have hlow := escapeChar_low ⟨c.toNat, UInt8.lt_iff_toNat_lt.mp hc⟩
    rw [UInt8.ofNat_toNat] at hlow
    exact forall_of_all hlow
  · have hcase := escaped c
    generalize escapeChar c = e at hcase
    cases hcase with
    | same => rfl
    | quoted hq => rcases hq with rfl | rfl <;> exact absurd hc (by decide)
    | control h32 => exact absurd (UInt8.lt_of_le_of_lt hc h32) (by decide)

theorem dumpString_utf8 {s : Bytes} (h : Json.Utf8 s) : Json.Utf8 (dumpString s) :=
  Json.Utf8.append (literal_utf8 (s := [34]) (by decide)) ((escape_utf8 h).append (literal_utf8 (s := [34]) (by decide)))

theorem valueText_of {v : PackVal} (h : Packable v) :
    Json.ValueText (valueText (valueOf v)) (valueOf v) ∧ Json.Utf8 (valueText (valueOf v)) := by
  cases v with
  | str s => exact ⟨.str (chars_escape h.2), dumpString_utf8 h.1⟩
  | int i => exact ⟨.int (integer_decimalText h.1 h.2), decimalText_utf8 i⟩

theorem renders_flat : Renders flatLibrary := by
  intro members hm
  have hnone : Json.Blanks [] := fun c hc => by cases hc
  refine ⟨_, _, rfl, ?_, ?_, fun _ => rfl⟩
  · -- the text is UTF-8
    apply Json.Utf8.append (literal_utf8 (s := [123]) (by decide))
    refine (Json.Utf8.intercalate (literal_utf8 (by decide)) fun s hs => ?_).append (literal_utf8 (s := [125]) (by decide))
    rw [List.map_map] at hs
    obtain ⟨p, hp, rfl⟩ := List.mem_map.mp hs
    obtain ⟨hkey, hvalue⟩ := hm p hp
    exact (dumpString_utf8 hkey.1).append (Json.Utf8.append (literal_utf8 (s := [58]) (by decide)) (valueText_of hvalue).2)
  · -- and it is an object
    cases members with
    | nil => exact Json.Obj.empty hnone hnone hnone
    | cons p members =>
      apply Json.Obj.of
      apply Json.listing_intercalate hnone
      · rw [List.forall₂_map_left_iff, List.forall₂_same]
        intro x hx
        obtain ⟨p, hp, rfl⟩ := List.mem_map.mp hx
        obtain ⟨hkey, hvalue⟩ := hm p hp
        have hmember := Json.Member.of (chars_escape hkey.2) hnone (valueText_of hvalue).1
        simpa [dumpString] using hmember
      · exact List.cons_ne_nil _ _

/-! ## What is typed -/

/-- The keys that go into the buffer. -/
def Printable (s : Bytes) : Prop := ∀ c ∈ s, 32 ≤ c ∧ c ≤ 126

theorem edit_printable {input : Bytes} (c : UInt8) (h : Printable input) :
    Printable (edit input c).1 ∧ ∀ line ∈ (edit input c).2, Printable line := by
  have hnil : Printable [] := fun c hc => by cases hc
  unfold edit
  split_ifs with hend hempty hback hkey
  · exact ⟨hnil, fun line hl => by cases hl⟩
  · refine ⟨hnil, fun line hl => ?_⟩
    cases hl
    exact h
  · exact ⟨fun c hc => h c (List.mem_of_mem_dropLast hc), fun line hl => by cases hl⟩
  · refine ⟨fun d hd => ?_, fun line hl => by cases hl⟩
    rcases List.mem_append.mp hd with hd | hd
    · exact h d hd
    · rw [List.mem_singleton.mp hd]
      exact hkey
  · exact ⟨h, fun line hl => by cases hl⟩

/-- Nothing but printable characters comes out of the keyboard. -/
theorem typed_printable {input : Bytes} {keys : List (Msec64 × UInt8)} (h : Printable input) :
    Printable (typed input keys).1 ∧
      ∀ l ∈ (typed input keys).2, Printable l.2 ∧ ∃ k ∈ keys, k.1 = l.1 := by
  induction keys generalizing input with
  | nil => exact ⟨h, fun l hl => by cases hl⟩
  | cons k keys ih =>
    obtain ⟨now, c⟩ := k
    obtain ⟨hbuf, hline⟩ := edit_printable c h
    obtain ⟨hinput, hlines⟩ := ih hbuf
    refine ⟨hinput, fun l hl => ?_⟩
    rcases List.mem_append.mp hl with hl | hl
    · rw [Option.mem_toList] at hl
      obtain ⟨line, hmem, rfl⟩ := Option.map_eq_some_iff.mp hl
      exact ⟨hline line hmem, (now, c), List.mem_cons_self, rfl⟩
    · obtain ⟨hp, k, hk, hnow⟩ := hlines l hl
      exact ⟨hp, k, List.mem_cons_of_mem _ hk, hnow⟩

namespace Windows

/-- The keyboards differ in special keys only. -/
theorem edit_eq (input : Bytes) (c : Int) :
    edit input c = if 0 ≤ c ∧ c < 256 then Client.edit input c.toNat.toUInt8 else (input, none) := by
  by_cases hc : 0 ≤ c ∧ c < 256
  · rw [if_pos hc]
    have hchar (k : UInt8) : c.toNat.toUInt8 = k ↔ c = k.toNat := by
      have hk := k.toNat_lt
      rw [← UInt8.toNat_inj, Nat.toUInt8_eq, UInt8.toNat_ofNat']
      omega
    have hrange : 32 ≤ c.toNat.toUInt8 ∧ c.toNat.toUInt8 ≤ 126 ↔ 32 ≤ c ∧ c ≤ 126 := by
      rw [UInt8.le_iff_toNat_le, UInt8.le_iff_toNat_le, Nat.toUInt8_eq, UInt8.toNat_ofNat']
      show 32 ≤ _ ∧ _ ≤ 126 ↔ _
      omega
    have h10 : c.toNat.toUInt8 = 10 ↔ c = 10 := hchar 10
    have h13 : c.toNat.toUInt8 = 13 ↔ c = 13 := hchar 13
    have h8 : c.toNat.toUInt8 = 8 ↔ c = 8 := hchar 8
    have h127 : c.toNat.toUInt8 = 127 ↔ c = 127 := hchar 127
    unfold edit Client.edit
    simp only [h10, h13, h8, h127, hrange]
    by_cases hcr : c = 13
    · simp [hcr]
    · simp only [hcr, if_false, or_false, or_comm (a := c = 8) (b := c = 127)]
  · rw [if_neg hc]
    have hne (k : Int) (hk : 0 ≤ k ∧ k < 256) : c ≠ k := by
      rintro rfl
      exact hc hk
    unfold edit
    rw [if_neg (hne 13 (by decide))]
    dsimp only
    rw [if_neg (hne 10 (by decide)), if_neg (not_or.mpr ⟨hne 8 (by decide), hne 127 (by decide)⟩),
      if_neg (fun h => hc ⟨by omega, by omega⟩)]

theorem edit_printable {input : Bytes} (c : Int) (h : Printable input) :
    Printable (edit input c).1 ∧ ∀ line ∈ (edit input c).2, Printable line := by
  rw [edit_eq]
  split
  · exact Client.edit_printable _ h
  · exact ⟨h, fun line hl => by cases hl⟩

theorem typed_printable {input : Bytes} {codes : List (Msec64 × Int)} (h : Printable input) :
    Printable (typed input codes).1 ∧
      ∀ l ∈ (typed input codes).2, Printable l.2 ∧ ∃ k ∈ codes, k.1 = l.1 := by
  fun_induction typed input codes with
  | case1 => exact ⟨h, fun l hl => by cases hl⟩
  | case2 => exact ⟨h, fun l hl => by cases hl⟩
  | case3 input now c hspecial k codes ih =>
    obtain ⟨hinput, hlines⟩ := ih h
    refine ⟨hinput, fun l hl => ?_⟩
    obtain ⟨hp, k, hk, hnow⟩ := hlines l hl
    exact ⟨hp, k, List.mem_cons_of_mem _ (List.mem_cons_of_mem _ hk), hnow⟩
  | case4 input now c codes hplain p q ih =>
    obtain ⟨hbuf, hline⟩ := edit_printable c h
    obtain ⟨hinput, hlines⟩ := ih hbuf
    refine ⟨hinput, fun l hl => ?_⟩
    rcases List.mem_append.mp hl with hl | hl
    · rw [Option.mem_toList] at hl
      obtain ⟨line, hmem, rfl⟩ := Option.map_eq_some_iff.mp hl
      exact ⟨hline line hmem, (now, c), List.mem_cons_self, rfl⟩
    · obtain ⟨hp, k, hk, hnow⟩ := hlines l hl
      exact ⟨hp, k, List.mem_cons_of_mem _ hk, hnow⟩

end Windows

/-- What is done with a line is what it asks for. -/
def Faithful (P : Params) (now : Msec64) (line : Bytes) (x : Submission) : Prop :=
  match Request.ofLine line with
  | none => x = .ignored
  | some r => ∃ payload, x = .sent payload ∧ Serves P payload now r

/-- The requests of lines, with their times. -/
def requestsOf (lines : List (Msec64 × Bytes)) : List (Msec64 × Request) :=
  lines.filterMap fun l => (Request.ofLine l.2).map fun r => (l.1, r)

theorem served_lines {P : Params} {sub : Msec64 → Bytes → Submission} {lines : List (Msec64 × Bytes)}
    (h : ∀ l ∈ lines, Faithful P l.1 l.2 (sub l.1 l.2)) :
    List.Forall₂ (fun payload r => Serves P payload r.1 r.2) (lines.filterMap fun l => (sub l.1 l.2).payload?)
      (requestsOf lines) := by
  unfold requestsOf
  induction lines with
  | nil => exact .nil
  | cons l lines ih =>
    have hl := h l List.mem_cons_self
    have hrest := ih fun l hl => h l (List.mem_cons_of_mem _ hl)
    unfold Faithful at hl
    cases hr : Request.ofLine l.2 with
    | none =>
      rw [hr] at hl
      dsimp only at hl
      rw [List.filterMap_cons_none (by rw [hl]; rfl), List.filterMap_cons_none (by rw [hr]; rfl)]
      exact hrest
    | some r =>
      rw [hr] at hl
      obtain ⟨payload, hsub, hserves⟩ := hl
      rw [List.filterMap_cons_some (b := payload) (by rw [hsub]; rfl),
        List.filterMap_cons_some (b := (l.1, r)) (by rw [hr]; rfl)]
      exact .cons hserves hrest

theorem printable_utf8 {s : Bytes} (h : Printable s) : Json.Utf8 s ∧ 0 ∉ s := by
  constructor
  · apply Json.utf8_of_ascii
    intro c hc
    exact UInt8.lt_of_le_of_lt (h c hc).2 (by decide)
  · intro h0
    exact absurd (h 0 h0).1 (by decide)

theorem literal_packable {s : Bytes} (h : s.all (fun c => decide (32 ≤ c ∧ c ≤ 126)) = true) : Packable (.str s) :=
  printable_utf8 (forall_of_all h)

/-! ## The Linux client -/

theorem members_packable {line : Bytes} (hl : Printable line) (now : Msec64) {r : Request}
    (hr : Request.ofLine line = some r) : ∀ p ∈ r.members now, Packable (.str p.1) ∧ Packable p.2 := by
  have htime := asJsonInt_packable now
  unfold Request.ofLine at hr
  split at hr
  · obtain ⟨i, hi, rfl⟩ := Option.map_eq_some_iff.mp hr
    have hb := stoiText_bounds hi
    have hint : Packable (.int i) := ⟨by omega, by omega⟩
    intro p hp
    simp only [Request.members, Linux.joinRequest, List.mem_cons, List.not_mem_nil, or_false] at hp
    rcases hp with rfl | rfl | rfl
    · exact ⟨literal_packable (s := ascii "type") (by decide), literal_packable (s := ascii "join") (by decide)⟩
    · exact ⟨literal_packable (s := ascii "channel_id") (by decide), hint⟩
    · exact ⟨literal_packable (s := ascii "timestamp") (by decide), htime⟩
  · cases hr
    intro p hp
    simp only [Request.members, Linux.messageRequest, List.mem_cons, List.not_mem_nil, or_false] at hp
    rcases hp with rfl | rfl | rfl
    · exact ⟨literal_packable (s := ascii "type") (by decide), literal_packable (s := ascii "message") (by decide)⟩
    · exact ⟨literal_packable (s := ascii "text") (by decide), printable_utf8 hl⟩
    · exact ⟨literal_packable (s := ascii "timestamp") (by decide), htime⟩

/-- A line that does not become a request, or the text of its request. -/
theorem submit_cases (render : List (Bytes × PackVal) → Option Bytes) (now : Msec64) (line : Bytes) :
    submit (fun i => render (Request.members now (.join i))) (render (Request.members now (.message line))) line =
      (Request.ofLine line).elim .ignored fun r =>
        (render (r.members now)).elim (if ascii "/join " <+: line then .ignored else .raised) .sent := by
  unfold submit Request.ofLine
  by_cases hjoin : ascii "/join " <+: line
  · rw [if_pos hjoin, if_pos hjoin]
    cases stoiText (line.drop 6) with
    | none => rfl
    | some i =>
      dsimp only [Option.map_some, Option.elim]
      cases render (Request.members now (.join i)) with
      | none => exact (if_pos hjoin).symm
      | some payload => rfl
  · rw [if_neg hjoin, if_neg hjoin]
    dsimp only [Option.elim]
    cases render (Request.members now (.message line)) with
    | none => exact (if_neg hjoin).symm
    | some payload => rfl

theorem Linux.submitLine_faithful {lib : Library} {P : Params} (hu : Understands P.js) (hr : Renders lib) {line : Bytes}
    (hl : Printable line) (now : Msec64) : Faithful P now line (Linux.submitLine lib now line) := by
  have hcases : Linux.submitLine lib now line = _ := submit_cases (Linux.render lib) now line
  unfold Faithful
  rw [hcases]
  cases hreq : Request.ofLine line with
  | none => rfl
  | some r =>
    obtain ⟨text, m, htext, hutf, hobj, hm⟩ := hr (r.members now) (members_packable hl now hreq)
    dsimp only [Option.elim]
    rw [htext]
    exact ⟨text, rfl, serves_of_obj hu hutf hobj hm⟩

/-- **What is typed is asked for.** In any rounds of the Linux client, whatever comes from the server: each finished
line that asks for something makes one request, in order, and every channel serves it as that. -/
theorem typed_lines_served {lib : Library} {P : Params} {me : Bytes} {s : Linux.Session} {is : List Linux.Poll}
    {d : Linux.Deed} (hu : Understands P.js) (hr : Renders lib) (h : Linux.Rounds lib me s is d)
    (hin : Printable s.input) :
    List.Forall₂ (fun payload r => Serves P payload r.1 r.2) d.sent
      (requestsOf (typed s.input (Linux.keysOf is)).2) := by
  rw [h.typed.2.2]
  apply served_lines
  intro l hl
  exact Linux.submitLine_faithful hu hr ((typed_printable hin).2 l hl).1 l.1

/-- `hi` and the enter key, while nothing comes from the server. -/
theorem typed_lines_served_hi : ∃ d, Linux.Rounds flatLibrary (ascii "ann") ⟨[], [], 1, true⟩
      ((ascii "hi\n").map fun c => ⟨none, some c, 7, fun _ _ => 80⟩) d ∧
    List.Forall₂ (fun payload r => Serves { sample with js := flatJansson } payload r.1 r.2) d.sent
      [(7, .message (ascii "hi"))] := by
  have hstart : Linux.Rounds flatLibrary (ascii "ann") ⟨[], [], 1, true⟩ [] ⟨⟨[], [], 1, true⟩, [], [], []⟩ := .nil _
  have hround {s : Linux.Session} {c : UInt8} {e : Linux.Deed} (hs : s.running = true)
      (he : Linux.press flatLibrary s ⟨none, some c, 7, fun _ _ => 80⟩ = some e) :
      Linux.Round flatLibrary (ascii "ann") s ⟨none, some c, 7, fun _ _ => 80⟩ _ := .mk hs (.quiet rfl) he
  have hrounds := ((hstart.snoc (hround (c := 104) rfl rfl)).snoc (hround (c := 105) rfl rfl)).snoc
    (hround (c := 10) rfl rfl)
  have hprintable : Printable [] := fun c hc => by cases hc
  have hu : Understands ({ sample with js := flatJansson } : Params).js := understands_flat
  exact ⟨_, hrounds, typed_lines_served hu renders_flat hrounds hprintable⟩

/-! ## The Windows client -/

namespace Windows

/-- What `json_escape` takes care of, and what needs no care. -/
def Escapable (c : UInt8) : Prop := 32 ≤ c ∨ c = 8 ∨ c = 9 ∨ c = 10 ∨ c = 12 ∨ c = 13

theorem chars_escaped {c : UInt8} (h : Escapable c) : Json.Chars (escaped c) [c] := by
  unfold escaped
  split_ifs with h34 h92 h8 h12 h10 h13 h9
  · subst h34
    exact .short rfl .nil
  · subst h92
    exact .short rfl .nil
  · subst h8
    exact .short rfl .nil
  · subst h12
    exact .short rfl .nil
  · subst h10
    exact .short rfl .nil
  · subst h13
    exact .short rfl .nil
  · subst h9
    exact .short rfl .nil
  · have h32 : 32 ≤ c := by
      rcases h with h | h | h | h | h | h
      · exact h
      · exact absurd h h8
      · exact absurd h h9
      · exact absurd h h10
      · exact absurd h h12
      · exact absurd h h13
    exact .plain h32 h34 h92 .nil

theorem chars_jsonEscape {s : Bytes} (h : ∀ c ∈ s, Escapable c) : Json.Chars (jsonEscape s) s :=
  Json.Chars.flatMap fun c hc => chars_escaped (h c hc)

theorem escaped_low {c : UInt8} (h : c < 128) : ∀ d ∈ escaped c, d < 128 := by
  unfold escaped
  split_ifs with h34 h92 h8 h12 h10 h13 h9
  · exact forall_of_all (by decide)
  · exact forall_of_all (by decide)
  · exact forall_of_all (by decide)
  · exact forall_of_all (by decide)
  · exact forall_of_all (by decide)
  · exact forall_of_all (by decide)
  · exact forall_of_all (by decide)
  · intro d hd
    rw [List.mem_singleton.mp hd]
    exact h

theorem escaped_high {c : UInt8} (h : 128 ≤ c) : escaped c = [c] := by
  have hne {k : UInt8} (hk : k < 128) : c ≠ k := by
    rintro rfl
    exact absurd hk (UInt8.not_lt.mpr h)
  unfold escaped
  rw [if_neg (hne (by decide)), if_neg (hne (by decide)), if_neg (hne (by decide)), if_neg (hne (by decide)),
    if_neg (hne (by decide)), if_neg (hne (by decide)), if_neg (hne (by decide))]

theorem jsonEscape_utf8 {s : Bytes} (h : Json.Utf8 s) : Json.Utf8 (jsonEscape s) :=
  Json.Utf8.flatMap (fun _ hc => escaped_low hc) (fun _ hc => escaped_high hc) h

/-- Members with keys that need no escapes, and the texts of their values. -/
def objectText (m : List (Bytes × Bytes)) : Bytes :=
  123 :: ([44, 32].intercalate (m.map fun p => 34 :: (p.1 ++ 34 :: 58 :: p.2)) ++ [125])

/-- A key of a request. -/
def PlainKey (key : Bytes) : Prop := ∀ c ∈ key, 32 ≤ c ∧ c ≠ 34 ∧ c ≠ 92

theorem obj_objectText {m : List (Bytes × Bytes)} {ms : Json.Members} (hne : m ≠ [])
    (h : List.Forall₂ (fun p q => p.1 = q.1 ∧ PlainKey p.1 ∧ Json.ValueText p.2 q.2) m ms) :
    Json.Obj (objectText m) ms := by
  have hnone : Json.Blanks [] := fun c hc => by cases hc
  have hone : Json.Blanks [32] := List.forall_mem_singleton.mpr rfl
  apply Json.Obj.of
  apply Json.listing_intercalate hone
  · rw [List.forall₂_map_left_iff]
    refine h.imp fun p q hpq => ?_
    obtain ⟨hkey, hplain, hvalue⟩ := hpq
    have hmember := Json.Member.of (Json.chars_self hplain) hnone hvalue
    rw [hkey] at hmember ⊢
    exact hmember
  · intro hmap
    exact hne (List.map_eq_nil_iff.mp hmap)

theorem messageRequest_eq (text : Bytes) (now : Msec64) : messageRequest text now =
    objectText [(ascii "type", ascii "\"message\""), (ascii "text", 34 :: (jsonEscape text ++ [34])),
      (ascii "timestamp", decimalText now.toNat)] := by
  simp only [messageRequest, objectText, List.map_cons, List.map_nil, List.intercalate, List.intersperse,
    List.flatten_cons, List.flatten_nil, List.append_assoc, List.cons_append, List.append_nil, List.nil_append]
  rfl

theorem joinRequest_eq (channelId : Int) (now : Msec64) : joinRequest channelId now =
    objectText [(ascii "type", ascii "\"join\""), (ascii "channel_id", decimalText channelId),
      (ascii "timestamp", decimalText now.toNat)] := by
  simp only [joinRequest, objectText, List.map_cons, List.map_nil, List.intercalate, List.intersperse,
    List.flatten_cons, List.flatten_nil, List.append_assoc, List.cons_append, List.append_nil, List.nil_append]
  rfl

theorem helloRequest_eq (me : Bytes) (now : Msec64) : helloRequest me now =
    objectText [(ascii "type", ascii "\"join\""), (ascii "channel_id", decimalText 1),
      (ascii "user_name", 34 :: (jsonEscape me ++ [34])), (ascii "timestamp", decimalText now.toNat)] := by
  simp only [helloRequest, objectText, List.map_cons, List.map_nil, List.intercalate, List.intersperse,
    List.flatten_cons, List.flatten_nil, List.append_assoc, List.cons_append, List.append_nil, List.nil_append]
  rfl

theorem value_now {now : Msec64} (h : now.toNat < 2 ^ 63) :
    Json.ValueText (decimalText now.toNat) (.int (asJsonInt now)) := by
  rw [asJsonInt_of_lt h]
  exact .int (integer_decimalText (by omega) (by omega))

theorem value_literal {s : Bytes} (h : PlainKey s) : Json.ValueText (34 :: (s ++ [34])) (.str s) :=
  .str (Json.chars_self h)

theorem plainKey {s : Bytes} (h : s.all (fun c => decide (32 ≤ c ∧ c ≠ 34 ∧ c ≠ 92)) = true) : PlainKey s :=
  forall_of_all h

theorem obj_message {text : Bytes} {now : Msec64} (ht : ∀ c ∈ text, Escapable c) (hn : now.toNat < 2 ^ 63) :
    Json.Obj (messageRequest text now) ((Request.members now (.message text)).map fun p => (p.1, valueOf p.2)) := by
  rw [messageRequest_eq]
  apply obj_objectText (List.cons_ne_nil _ _)
  refine .cons ⟨rfl, plainKey (s := ascii "type") (by decide), ?_⟩
    (.cons ⟨rfl, plainKey (s := ascii "text") (by decide), ?_⟩
      (.cons ⟨rfl, plainKey (s := ascii "timestamp") (by decide), ?_⟩ .nil))
  · exact value_literal (s := ascii "message") (plainKey (by decide))
  · exact .str (chars_jsonEscape ht)
  · exact value_now hn

theorem obj_join {channelId : Int} {now : Msec64} (hl : -2 ^ 31 ≤ channelId) (hu : channelId < 2 ^ 31)
    (hn : now.toNat < 2 ^ 63) :
    Json.Obj (joinRequest channelId now) ((Request.members now (.join channelId)).map fun p => (p.1, valueOf p.2)) := by
  rw [joinRequest_eq]
  apply obj_objectText (List.cons_ne_nil _ _)
  refine .cons ⟨rfl, plainKey (s := ascii "type") (by decide), ?_⟩
    (.cons ⟨rfl, plainKey (s := ascii "channel_id") (by decide), ?_⟩
      (.cons ⟨rfl, plainKey (s := ascii "timestamp") (by decide), ?_⟩ .nil))
  · exact value_literal (s := ascii "join") (plainKey (by decide))
  · exact .int (integer_decimalText (by omega) (by omega))
  · exact value_now hn

theorem submitLine_faithful {P : Params} (hu : Understands P.js) {line : Bytes} (hl : Printable line) {now : Msec64}
    (hn : now.toNat < 2 ^ 63) : Faithful P now line (submitLine now line) := by
  have htime := decimalText_utf8 now.toNat
  have hlit {s : Bytes} (h : s.all (fun c => decide (c < 128)) = true) := literal_utf8 h
  unfold Faithful submitLine submit Request.ofLine
  by_cases hjoin : ascii "/join " <+: line
  · rw [if_pos hjoin, if_pos hjoin]
    cases hnum : stoiText (line.drop 6) with
    | none => rfl
    | some i =>
      obtain ⟨hlow, hhigh⟩ := stoiText_bounds hnum
      have hutf : Json.Utf8 (joinRequest i now) :=
        (((((hlit (by decide)).append (decimalText_utf8 i)).append (hlit (by decide))).append htime).append
          (hlit (by decide)))
      exact ⟨_, rfl, serves_of_obj hu hutf (obj_join hlow hhigh hn) fun _ => rfl⟩
  · rw [if_neg hjoin, if_neg hjoin]
    have hescapable : ∀ c ∈ line, Escapable c := fun c hc => .inl (hl c hc).1
    have hutf : Json.Utf8 (messageRequest line now) :=
      (((((hlit (by decide)).append (jsonEscape_utf8 (printable_utf8 hl).1)).append (hlit (by decide))).append
        htime).append (hlit (by decide)))
    exact ⟨_, rfl, serves_of_obj hu hutf (obj_message hescapable hn) fun _ => rfl⟩

end Windows

/-- **The same on Windows**, where the requests are put together by hand, for any codes of any keys, at times before
the year 292 million. -/
theorem windows_lines_served {P : Params} {input : Bytes} {codes : List (Msec64 × Int)} (hu : Understands P.js)
    (hin : Printable input) (hnow : ∀ k ∈ codes, k.1.toNat < 2 ^ 63) :
    List.Forall₂ (fun payload r => Serves P payload r.1 r.2)
      ((Windows.typed input codes).2.filterMap fun l => (Windows.submitLine l.1 l.2).payload?)
      (requestsOf (Windows.typed input codes).2) := by
  apply served_lines
  intro l hl
  obtain ⟨hp, k, hk, hkl⟩ := (Windows.typed_printable hin).2 l hl
  exact Windows.submitLine_faithful hu hp (hkl ▸ hnow k hk)

/-- An arrow key, whose second code is an `H`, the line `/join -3`, and a line that is not a number. -/
theorem windows_lines_served_join :
    List.Forall₂ (fun payload r => Serves { sample with js := flatJansson } payload r.1 r.2)
      [ascii "\x7b\"type\":\"join\", \"channel_id\":-3, \"timestamp\":7\x7d"] [(7, .join (-3))] := by
  have hu : Understands ({ sample with js := flatJansson } : Params).js := understands_flat
  have hprintable : Printable [] := fun c hc => by cases hc
  have hseven : (7 : Msec64).toNat < 2 ^ 63 := by decide
  let codes : List Int := [224, 72] ++ (ascii "/join -3\r/join x\r").map fun c => (c.toNat : Int)
  have htyped : (Windows.typed [] (codes.map fun c => (7, c))).2 = [(7, ascii "/join -3"), (7, ascii "/join x")] := by
    decide +kernel
  have hserved := @windows_lines_served { sample with js := flatJansson } [] (codes.map fun c => (7, c)) hu hprintable
    (List.forall_mem_map.mpr fun _ _ => hseven)
  rw [htyped] at hserved
  exact hserved

end ChatChannel.Client
