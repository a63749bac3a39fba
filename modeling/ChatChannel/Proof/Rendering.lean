import ChatChannel.Proof.Scanning

/-!
# Windows on the Windows client

`resolve_broadcast` writes a window with `json_dumps`; `display_message` takes it apart at the braces and
drops the backslashes. An escaped quote cannot be taken for the end of a string, so no text is mistaken for
a key (`behind?_string`). A closing brace in a name or in a text ends the object too early, an escaped
control character loses its backslash, and a large channel id is not converted; without these the client
reads what was written (`reads_iff`).
-/

set_option autoImplicit false

namespace ChatChannel.Client

/-! ## `json_dumps` -/

/-- A digit of `%04X`. -/
def upperHex (n : UInt8) : UInt8 := if n < 10 then 48 + n else 55 + n

/-- A character in a JSON string. -/
def escapeChar (c : UInt8) : Bytes :=
  if c = 34 then [92, 34]
  else if c = 92 then [92, 92]
  else if c = 8 then [92, 98]
  else if c = 9 then [92, 116]
  else if c = 10 then [92, 110]
  else if c = 12 then [92, 102]
  else if c = 13 then [92, 114]
  else if c < 32 then [92, 117, 48, 48, upperHex (c / 16), upperHex (c % 16)]
  else [c]

def escape (s : Bytes) : Bytes := s.flatMap escapeChar

def dumpString (s : Bytes) : Bytes := 34 :: (escape s ++ [34])

def dumpValue : PackVal → Bytes
  | .str s => dumpString s
  | .int i => FlatJson.dumpValue (.int i)

def dumpMember (p : Bytes × PackVal) : Bytes := dumpString p.1 ++ ascii ": " ++ dumpValue p.2

/-- Members in the order they were packed in. -/
def dumpObject (m : List (Bytes × PackVal)) : Bytes :=
  123 :: ((ascii ", ").intercalate (m.map dumpMember) ++ [125])

def dumpArray (l : List (List (Bytes × PackVal))) : Bytes :=
  91 :: ((ascii ", ").intercalate (l.map dumpObject) ++ [93])

/-! ## What is to be read -/

/-- A message of a window and its time. -/
abbrev Timed := Msec64 × MessageReqDto

/-- The object `resolve_broadcast` writes for a message. -/
def written (m : Timed) : Bytes := dumpObject (windowEntry m.1 m.2)

/-- The value of `"type"`. -/
def typeName : MsgType → Bytes
  | .user => ascii "user"
  | .system => ascii "system"

/-- What a call of `print_line` is compared by. -/
def Line.shown (l : Line) : Bytes × Bytes × Bytes := (l.type, l.user, l.event)

def original (m : Timed) : Bytes × Bytes × Bytes := (typeName m.2.type, m.2.userName, m.2.text)

/-- `print_line` is called once for each message, in order, with its type, name and text. -/
def Reads (ms : List Timed) : Prop :=
  ∃ lines, displayMessage (dumpArray (ms.map fun m => windowEntry m.1 m.2)) = some lines ∧
    lines.map Line.shown = ms.map original

/-- No control character, no closing brace but as the last character of the text, and a channel id that an
`int` can hold unless such a brace hides it. -/
structure Readable (m : MessageReqDto) : Prop where
  name : ∀ c ∈ m.userName, 32 ≤ c ∧ c ≠ 125
  text : ∀ c ∈ m.text, 32 ≤ c
  brace : 125 ∉ m.text.dropLast
  channel : m.type = .system → 125 ∉ m.text → m.channelId.toNat < 2 ^ 31

/-! ## Strings without their backslashes -/

section

variable {c : UInt8} {s t y z key : Bytes}

/-- A property of all bytes of a literal, by evaluation. -/
theorem forall_of_all {p : UInt8 → Prop} [DecidablePred p] (h : s.all (fun c => decide (p c)) = true) :
    ∀ c ∈ s, p c := fun c hc => of_decide_eq_true (List.all_eq_true.mp h c hc)

/-- A printable character that means nothing to a scanner. -/
def Plain (x : UInt8) : Prop := 32 ≤ x ∧ x ≠ 34 ∧ x ≠ 92 ∧ x ≠ 125

instance : DecidablePred Plain := fun x => by unfold Plain; infer_instance

theorem upperHex_plain : ∀ c : Fin 32, Plain (upperHex (.ofNat c / 16)) ∧ Plain (upperHex (.ofNat c % 16)) := by
  decide

/-- The cases of `escapeChar`. -/
inductive Escaped (c : UInt8) : Bytes → Prop
  | same : 32 ≤ c → c ≠ 34 → c ≠ 92 → Escaped c [c]
  | quoted : c = 34 ∨ c = 92 → Escaped c [92, c]
  | control {d : UInt8} {ds : Bytes} : c < 32 → (∀ x ∈ d :: ds, Plain x) → Escaped c (92 :: d :: ds)

theorem escaped (c : UInt8) : Escaped c (escapeChar c) := by
  unfold escapeChar
  split_ifs with h34 h92 h8 h9 h10 h12 h13 h32
  · subst h34
    exact .quoted (.inl rfl)
  · subst h92
    exact .quoted (.inr rfl)
  · subst h8
    exact .control (by decide) (List.forall_mem_singleton.mpr (by decide))
  · subst h9
    exact .control (by decide) (List.forall_mem_singleton.mpr (by decide))
  · subst h10
    exact .control (by decide) (List.forall_mem_singleton.mpr (by decide))
  · subst h12
    exact .control (by decide) (List.forall_mem_singleton.mpr (by decide))
  · subst h13
    exact .control (by decide) (List.forall_mem_singleton.mpr (by decide))
  · have hlt : c.toNat < 32 := UInt8.lt_iff_toNat_lt.mp h32
    have hhex := upperHex_plain ⟨c.toNat, hlt⟩
    rw [UInt8.ofNat_toNat] at hhex
    refine .control h32 fun x hx => ?_
    simp only [List.mem_cons, List.not_mem_nil, or_false] at hx
    rcases hx with rfl | rfl | rfl | rfl | rfl
    · decide
    · decide
    · decide
    · exact hhex.1
    · exact hhex.2
  · exact .same (UInt8.not_lt.mp h32) h34 h92

/-- What a character is read as: a control character loses its backslash only. -/
def bare (c : UInt8) : Bytes := if c < 32 then (escapeChar c).tail else [c]

theorem unquote_run {ds : Bytes} (h : ∀ x ∈ ds, x ≠ 34 ∧ x ≠ 92) (y : Bytes) :
    unquote false (ds ++ y) = ds ++ unquote false y := by
  induction ds with
  | nil => rfl
  | cons d ds ih =>
    obtain ⟨h34, h92⟩ := h d List.mem_cons_self
    rw [List.cons_append, unquote, if_neg h92, if_neg h34, ih fun x hx => h x (List.mem_cons_of_mem _ hx)]
    rfl

theorem unquote_escapeChar (c : UInt8) (y : Bytes) :
    unquote false (escapeChar c ++ y) = bare c ++ unquote false y := by
  unfold bare
  have h := escaped c
  generalize escapeChar c = e at h
  cases h with
  | same h32 h34 h92 =>
    rw [if_neg (UInt8.not_lt.mpr h32)]
    exact unquote_run (by simp [h34, h92]) y
  | quoted hc =>
    rw [if_neg (by rcases hc with rfl | rfl <;> decide)]
    rfl
  | @control d ds h32 hds =>
    rw [if_pos h32]
    have hplain : ∀ x ∈ ds, x ≠ 34 ∧ x ≠ 92 := fun x hx =>
      (hds x (List.mem_cons_of_mem _ hx)).2.imp_right And.left
    have hrun := unquote_run hplain y
    show d :: unquote false (ds ++ y) = d :: ds ++ unquote false y
    rw [hrun]
    rfl

/-- A string is read up to its closing quote, or to the end of the piece. -/
theorem unquote_escape (s : Bytes) (hz : z = [] ∨ ∃ y, z = 34 :: y) :
    unquote false (escape s ++ z) = s.flatMap bare := by
  have hend : unquote false z = [] := by
    rcases hz with rfl | ⟨y, rfl⟩ <;> rfl
  induction s with
  | nil => exact hend
  | cons c s ih =>
    show unquote false (escapeChar c ++ escape s ++ z) = _
    rw [List.append_assoc, unquote_escapeChar, ih]
    rfl

theorem bare_same {c : UInt8} (h : 32 ≤ c) : bare c = [c] := if_neg (UInt8.not_lt.mpr h)

theorem le_of_mem_bare {c x : UInt8} (hx : x ∈ bare c) : 32 ≤ x := by
  unfold bare at hx
  split at hx
  · rename_i h32
    have h := escaped c
    generalize escapeChar c = e at h hx
    cases h with
    | same hge => exact absurd h32 (UInt8.not_lt.mpr hge)
    | quoted hc => rcases hc with rfl | rfl <;> exact absurd h32 (by decide)
    | control _ hds => exact (hds x hx).1
  · rename_i h32
    rw [List.mem_singleton.mp hx]
    exact UInt8.not_lt.mp h32

/-- A string is read as it was exactly if it has no control character. -/
theorem flatMap_bare {s : Bytes} : s.flatMap bare = s ↔ ∀ c ∈ s, 32 ≤ c := by
  constructor
  · intro h c hc
    rw [← h, List.mem_flatMap] at hc
    obtain ⟨d, -, hd⟩ := hc
    exact le_of_mem_bare hd
  · intro h
    induction s with
    | nil => rfl
    | cons c s ih =>
      rw [List.flatMap_cons, bare_same (h c List.mem_cons_self), ih fun d hd => h d (List.mem_cons_of_mem _ hd)]
      rfl

/-- Braces are not escaped. -/
theorem mem_escape {b : UInt8} (hb : b = 125) : b ∈ escape s ↔ b ∈ s := by
  subst hb
  have hchar (c : UInt8) : 125 ∈ escapeChar c ↔ 125 = c := by
    have h := escaped c
    generalize escapeChar c = e at h
    cases h with
    | same => exact List.mem_singleton
    | quoted hc => rcases hc with rfl | rfl <;> decide
    | control hlt hds =>
      refine iff_of_false (fun hmem => ?_) ?_
      · rcases List.mem_cons.mp hmem with h | h
        · exact absurd h (by decide)
        · exact (hds 125 h).2.2.2 rfl
      · rintro rfl
        exact absurd hlt (by decide)
  simp [escape, List.mem_flatMap, hchar]

/-! ## Keys and strings -/

/-- A key of the windows: it needs no escapes. -/
def Key (key : Bytes) : Prop := ∀ c ∈ key, c ≠ 34 ∧ c ≠ 92

/-- `"key":`. -/
def search (key : Bytes) : Bytes := 34 :: key ++ [34, 58]

/-- The first quote in `z` is not followed by a colon. -/
def Unkeyed (z : Bytes) : Prop := ∀ k, 34 ∉ k → ¬ (k ++ [34, 58]) <+: z

theorem unkeyed_nil : Unkeyed [] := fun k _ h => by simpa using List.prefix_nil.mp h

theorem unkeyed_quote (hy : y.head? ≠ some 58) : Unkeyed (34 :: y) := by
  intro k hk h
  cases k with
  | nil =>
    obtain ⟨x, hx⟩ := h
    cases hx
    exact hy rfl
  | cons d k =>
    obtain ⟨x, hx⟩ := h
    obtain ⟨rfl, -⟩ := List.cons.inj hx
    exact hk List.mem_cons_self

/-- Nothing in an escaped string is taken for the rest of a key. -/
theorem not_key (hz : Unkeyed z) : ∀ {s key : Bytes}, Key key → ¬ (key ++ [34, 58]) <+: (escape s ++ z) := by
  intro s
  induction s with
  | nil =>
    intro key hkey h
    exact hz key (fun h34 => (hkey 34 h34).1 rfl) h
  | cons c s ih =>
    intro key hkey hpre
    have hpre : (key ++ [34, 58]) <+: (escapeChar c ++ (escape s ++ z)) := by
      rwa [← List.append_assoc]
    have h := escaped c
    generalize escapeChar c = e at h hpre
    -- the first character of the pattern is a quote, or one of a key
    cases h with
    | same h32 h34 h92 =>
      cases key with
      | nil => exact h34 (List.cons_prefix_cons.mp hpre).1.symm
      | cons k key =>
        exact ih (fun x hx => hkey x (List.mem_cons_of_mem _ hx)) (List.cons_prefix_cons.mp hpre).2
    | quoted hc =>
      cases key with
      | nil => exact absurd (List.cons_prefix_cons.mp hpre).1 (by decide)
      | cons k key => exact (hkey k List.mem_cons_self).2 (List.cons_prefix_cons.mp hpre).1
    | control h32 hds =>
      cases key with
      | nil => exact absurd (List.cons_prefix_cons.mp hpre).1 (by decide)
      | cons k key => exact (hkey k List.mem_cons_self).2 (List.cons_prefix_cons.mp hpre).1

theorem behind?_cons {pat : Bytes} (h : ¬ pat <+: c :: s) : behind? pat (c :: s) = behind? pat s := by
  rw [behind?, if_neg h]

/-- Where there is no quote, there is no key. -/
theorem behind?_skip {x : Bytes} (hx : 34 ∉ x) (y : Bytes) :
    behind? (search key) (x ++ y) = behind? (search key) y := by
  induction x with
  | nil => rfl
  | cons c x ih =>
    rw [List.cons_append, behind?_cons, ih fun h => hx (List.mem_cons_of_mem _ h)]
    intro h
    exact hx ((List.cons_prefix_cons.mp h).1 ▸ List.mem_cons_self)

/-- No key is found in a string, whatever it says. -/
theorem behind?_string (hkey : Key key) (hz : Unkeyed z) (s : Bytes) :
    behind? (search key) (34 :: (escape s ++ z)) = behind? (search key) z := by
  have hquote (s : Bytes) : ¬ search key <+: 34 :: (escape s ++ z) := by
    intro h
    exact not_key hz hkey (List.cons_prefix_cons.mp h).2
  rw [behind?_cons (hquote s)]
  induction s with
  | nil => rfl
  | cons c s ih =>
    show behind? (search key) (escapeChar c ++ escape s ++ z) = _
    rw [List.append_assoc]
    have h := escaped c
    generalize escapeChar c = e at h
    cases h with
    | same h32 h34 h92 =>
      rw [behind?_skip (by simpa using h34.symm), ih]
    | quoted hc =>
      rcases hc with rfl | rfl
      · show behind? (search key) (92 :: 34 :: (escape s ++ z)) = _
        have hback : ¬ search key <+: 92 :: 34 :: (escape s ++ z) := fun h =>
          absurd (List.cons_prefix_cons.mp h).1 (by decide)
        rw [behind?_cons hback, behind?_cons (hquote s), ih]
      · rw [behind?_skip (by decide), ih]
    | @control d ds h32 hds =>
      have hnone : 34 ∉ 92 :: d :: ds := by
        intro hmem
        rcases List.mem_cons.mp hmem with h | h
        · exact absurd h (by decide)
        · exact (hds 34 h).2.1 rfl
      rw [behind?_skip hnone, ih]

/-! ## The objects of a window -/

/-- The text of an object up to the quote before the name, from there to the quote before the text, and
from there on. -/
def opening (k : MsgType) : Bytes :=
  ascii "\x7b\"type\": \"" ++ typeName k ++ ascii "\", \"user_name\": "

def between : Bytes := ascii "\", \"event\": "

def closing (m : Timed) : Bytes :=
  ascii "\", \"timestamp\": " ++ FlatJson.dumpValue (.int (asJsonInt m.1)) ++
    match m.2.type with
    | .user => [125]
    | .system => ascii ", \"channel_id\": " ++ FlatJson.digits m.2.channelId.toNat ++ [125]

/-- An object with the name `u` and the text `t`, followed by `z`. -/
def object (k : MsgType) (u t z : Bytes) : Bytes :=
  opening k ++ 34 :: (escape u ++ (between ++ 34 :: (escape t ++ z)))

theorem written_eq (m : Timed) : written m = object m.2.type m.2.userName m.2.text (closing m) := by
  have hkeys : escape (ascii "type") = ascii "type" ∧ escape (ascii "user_name") = ascii "user_name" ∧
      escape (ascii "event") = ascii "event" ∧ escape (ascii "timestamp") = ascii "timestamp" ∧
        escape (ascii "channel_id") = ascii "channel_id" ∧ escape (ascii "user") = ascii "user" ∧
          escape (ascii "system") = ascii "system" := by decide
  obtain ⟨ts, ⟨k, text, x, u, c⟩⟩ := m
  cases k with
  | user =>
    simp only [written, dumpObject, windowEntry, List.map_cons, List.map_nil, dumpMember, dumpString,
      dumpValue, hkeys, object, closing, List.intercalate, List.intersperse, List.flatten_cons,
      List.flatten_nil, List.append_assoc, List.cons_append, List.append_nil, List.nil_append]
    rfl
  | system =>
    simp only [written, dumpObject, windowEntry, List.map_cons, List.map_nil, dumpMember, dumpString,
      dumpValue, hkeys, object, closing, List.intercalate, List.intersperse, List.flatten_cons,
      List.flatten_nil, List.append_assoc, List.cons_append, List.append_nil, List.nil_append]
    rfl

theorem unkeyed_between (x : Bytes) : Unkeyed (between ++ x) := by
  show Unkeyed (34 :: (ascii ", \"event\": " ++ x))
  exact unkeyed_quote fun h => absurd (Option.some.inj h) (by decide)

/-- What the client reads from an object, whole or cut off in its text. -/
theorem strings_object (k : MsgType) (u t : Bytes) {z : Bytes} (hz : z = [] ∨ ∃ y, z = 34 :: y) :
    extractJsonString (object k u t z) (ascii "type") = typeName k ∧
      extractJsonString (object k u t z) (ascii "user_name") = u.flatMap bare ∧
        extractJsonString (object k u t z) (ascii "event") = t.flatMap bare := by
  refine ⟨?_, ?_, ?_⟩
  · cases k <;> rfl
  · have hname : member? (object k u t z) (ascii "user_name") =
        some (34 :: (escape u ++ (between ++ 34 :: (escape t ++ z)))) := by
      cases k <;> rfl
    rw [extractJsonString, hname]
    exact unquote_escape u (.inr ⟨_, rfl⟩)
  · have hskip : behind? (search (ascii "event")) (object k u t z) =
        behind? (search (ascii "event")) (34 :: (escape u ++ (between ++ 34 :: (escape t ++ z)))) := by
      cases k <;> rfl
    have hevent : member? (object k u t z) (ascii "event") = some (34 :: (escape t ++ z)) := by
      show (behind? (search (ascii "event")) (object k u t z)).map _ = _
      rw [hskip, behind?_string (forall_of_all (by decide)) (unkeyed_between _)]
      rfl
    rw [extractJsonString, hevent]
    exact unquote_escape t hz

/-! ## Numbers -/

/-- A digit is a byte of its own. -/
theorem toNat_digit {d : Char} (hd : d.isDigit = true) :
    d.toNat.toUInt8.toNat = d.toNat ∧ 48 ≤ d.toNat ∧ d.toNat ≤ 57 := by
  obtain ⟨h48, h57⟩ := Char.isDigit_iff_toNat.mp hd
  have h48 : 48 ≤ d.toNat := h48
  have h57 : d.toNat ≤ 57 := h57
  exact ⟨Nat.mod_eq_of_lt (by omega), h48, h57⟩

theorem decimal_digits {n : Nat} {c : UInt8} (hc : c ∈ FlatJson.digits n) : decimal c = true := by
  obtain ⟨d, hd, rfl⟩ := List.mem_map.mp hc
  obtain ⟨hnat, h48, h57⟩ := toNat_digit (Nat.isDigit_of_mem_toDigits (by decide) (by decide) hd)
  unfold decimal
  rw [Bool.and_eq_true, decide_eq_true_iff, decide_eq_true_iff, UInt8.le_iff_toNat_le,
    UInt8.le_iff_toNat_le, hnat]
  exact ⟨h48, h57⟩

theorem digitsValue_digits (n : Nat) : digitsValue (FlatJson.digits n) = n := by
  have hfold : ∀ (ds : List Char) (v : Nat), (∀ d ∈ ds, d.isDigit = true) →
      (ds.map fun d => d.toNat.toUInt8).foldl (fun v c => 10 * v + (c.toNat - 48)) v =
        Nat.ofDigitChars 10 ds v := by
    intro ds
    induction ds with
    | nil =>
      intro v _
      rfl
    | cons d ds ih =>
      intro v hds
      rw [List.map_cons, List.foldl_cons, (toNat_digit (hds d List.mem_cons_self)).1,
        ih _ fun x hx => hds x (List.mem_cons_of_mem _ hx)]
      rfl
  unfold digitsValue FlatJson.digits
  rw [hfold _ _ fun d hd => Nat.isDigit_of_mem_toDigits (by decide) (by decide) hd,
    Nat.ofDigitChars_ten_toDigits]

theorem digits_ne_nil (n : Nat) : FlatJson.digits n ≠ [] := by
  intro h
  exact Nat.toDigits_ne_nil (List.map_eq_nil_iff.mp h)

/-- A timestamp has neither quotes nor braces. -/
theorem number_plain {i : Int} {c : UInt8} (hc : c ∈ FlatJson.dumpValue (.int i)) : numeral c = true := by
  cases i with
  | ofNat n =>
    have hdec := decimal_digits (n := n) hc
    unfold numeral
    rw [hdec, Bool.true_or]
  | negSucc n =>
    rcases List.mem_cons.mp hc with rfl | hc
    · rfl
    · have hdec := decimal_digits hc
      unfold numeral
      rw [hdec, Bool.true_or]

/-! ## The channel id -/

theorem channel_object (k : MsgType) (u t : Bytes) (hz : Unkeyed z) :
    behind? (search (ascii "channel_id")) (object k u t z) = behind? (search (ascii "channel_id")) z := by
  have hkey : Key (ascii "channel_id") := forall_of_all (by decide)
  have hopening : behind? (search (ascii "channel_id")) (object k u t z) =
      behind? (search (ascii "channel_id")) (34 :: (escape u ++ (between ++ 34 :: (escape t ++ z)))) := by
    cases k <;> rfl
  have hbetween (x : Bytes) : behind? (search (ascii "channel_id")) (between ++ 34 :: x) =
      behind? (search (ascii "channel_id")) (34 :: x) := rfl
  rw [hopening, behind?_string hkey (unkeyed_between _), hbetween, behind?_string hkey hz]

theorem member_channel (k : MsgType) (u t : Bytes) (hz : Unkeyed z) :
    member? (object k u t z) (ascii "channel_id") =
      (behind? (search (ascii "channel_id")) z).map (·.dropWhile fun c => c == 32 || c == 9) := by
  rw [← channel_object k u t hz]
  rfl

/-- A piece that is cut off in its text has no channel id. -/
theorem int_cut (k : MsgType) (u t : Bytes) :
    extractJsonInt (object k u t []) (ascii "channel_id") = some 0 := by
  rw [extractJsonInt, member_channel k u t unkeyed_nil]
  rfl

theorem stoi_channel (c : ChId) : (stoi (FlatJson.digits c.toNat)).isSome = true ↔
    c.toNat < 2 ^ 31 := by
  rw [stoi_isSome]
  constructor
  · rintro ⟨ds, tail, -, -, htail, ⟨hds, hlt⟩ | ⟨hds, -⟩⟩
    · have htail : tail = [] := by
        cases tail with
        | nil => rfl
        | cons d tail =>
          have hdec : decimal d = true := decimal_digits (n := c.toNat) (by rw [hds]; simp)
          exact absurd (htail d rfl) (by rw [hdec]; simp)
      subst htail
      rwa [← digitsValue_digits c.toNat, hds, List.append_nil]
    · have hdec : decimal 45 = true := decimal_digits (n := c.toNat) (by rw [hds]; simp)
      exact absurd hdec (by decide)
  · intro hlt
    exact ⟨FlatJson.digits c.toNat, [], digits_ne_nil _, fun d hd => decimal_digits hd, by simp,
      .inl ⟨(List.append_nil _).symm, by rwa [digitsValue_digits]⟩⟩

theorem unkeyed_closing (m : Timed) : Unkeyed (closing m) := by
  unfold closing
  rw [List.append_assoc]
  show Unkeyed (34 :: (ascii ", \"timestamp\": " ++ _))
  exact unkeyed_quote fun h => absurd (Option.some.inj h) (by decide)

theorem number_skip (i : Int) (x : Bytes) :
    behind? (search (ascii "channel_id")) (FlatJson.dumpValue (.int i) ++ x) =
      behind? (search (ascii "channel_id")) x :=
  behind?_skip (fun h => absurd (number_plain h) (by decide)) x

theorem int_written (m : Timed) : (extractJsonInt (written m) (ascii "channel_id")).isSome = true ↔
    (m.2.type = .system → m.2.channelId.toNat < 2 ^ 31) := by
  have hskip (x : Bytes) : behind? (search (ascii "channel_id")) (ascii "\", \"timestamp\": " ++ x) =
      behind? (search (ascii "channel_id")) x := rfl
  rw [written_eq, extractJsonInt, member_channel _ _ _ (unkeyed_closing m), closing, List.append_assoc, hskip,
    number_skip]
  cases m.2.type with
  | user => exact iff_of_true rfl (by simp)
  | system =>
    have hrun : (FlatJson.digits m.2.channelId.toNat ++ [125]).takeWhile (fun c => decimal c || c == 45) =
        FlatJson.digits m.2.channelId.toNat :=
      (span_append (p := numeral) (fun c hc => by unfold numeral; rw [decimal_digits hc, Bool.true_or])
        fun c hc => by cases hc; decide).1
    have hfound : (behind? (search (ascii "channel_id")) (ascii ", \"channel_id\": " ++
        FlatJson.digits m.2.channelId.toNat ++ [125])).map (·.dropWhile fun c => c == 32 || c == 9) =
          some (FlatJson.digits m.2.channelId.toNat ++ [125]) := by
      have hstart : ∀ c ∈ (FlatJson.digits m.2.channelId.toNat ++ [125]).head?, blank c = false := by
        intro c hc
        rw [List.head?_append_of_ne_nil _ (digits_ne_nil _)] at hc
        have hdec := decimal_digits (List.mem_of_mem_head? hc)
        exact blank_of_numeral (by unfold numeral; rw [hdec, Bool.true_or])
      exact congrArg some (span_append (p := blank) (x := [32]) (List.forall_mem_singleton.mpr rfl) hstart).2
    dsimp only
    rw [hfound]
    dsimp only
    rw [hrun, if_neg (digits_ne_nil _), stoi_channel]
    simp

/-! ## One object -/

/-- What there is of an object when its name has a closing brace: no text. -/
theorem event_named (k : MsgType) (p : Bytes) :
    extractJsonString (opening k ++ 34 :: (escape p ++ [125])) (ascii "event") = [] := by
  have hopening : behind? (search (ascii "event")) (opening k ++ 34 :: (escape p ++ [125])) =
      behind? (search (ascii "event")) (34 :: (escape p ++ [125])) := by
    cases k <;> rfl
  have hend : Unkeyed [125] := by
    intro x hx h
    cases x with
    | nil => exact absurd (List.cons_prefix_cons.mp h).1 (by decide)
    | cons d x =>
      have := h.length_le
      simp at this
  have hnone : member? (opening k ++ 34 :: (escape p ++ [125])) (ascii "event") = none := by
    show (behind? (search (ascii "event")) _).map _ = none
    rw [hopening, behind?_string (forall_of_all (by decide)) hend]
    rfl
  rw [extractJsonString, hnone]

/-- What the scan of an array takes from an object, and what it makes of it. -/
structure Scan (m : Timed) (b c : Bytes) : Prop where
  object : written m = 123 :: (b ++ 125 :: c)
  first : 125 ∉ b
  good : Readable m.2 → 123 ∉ c ∧
    ∃ line, parseAndPrint (123 :: (b ++ [125])) = some line ∧ line.shown = original m
  bad : m.2.text ≠ [] → ∀ line, parseAndPrint (123 :: (b ++ [125])) = some line → line.shown = original m →
    Readable m.2

theorem opening_cons (k : MsgType) : ∃ x, opening k = 123 :: x ∧ 125 ∉ x := by
  cases k <;> exact ⟨_, rfl, by decide⟩

/-- The name has a closing brace. -/
theorem scan_name {m : Timed} {p q : Bytes} (hu : m.2.userName = p ++ 125 :: q) (hp : 125 ∉ p) :
    ∃ b c, Scan m b c := by
  obtain ⟨x, hx, hx125⟩ := opening_cons m.2.type
  have hesc : escape (p ++ 125 :: q) = escape p ++ 125 :: escape q := by
    simp [escape, escapeChar]
  refine ⟨x ++ 34 :: escape p, escape q ++ (between ++ 34 :: (escape m.2.text ++ closing m)), ?_, ?_, ?_, ?_⟩
  · rw [written_eq, object, hu, hesc, hx]
    simp
  · simpa [mem_escape, hp] using hx125
  · intro h
    exact absurd rfl (h.name 125 (by rw [hu]; simp)).2
  · intro htext line hline hshown
    have hpiece : 123 :: (x ++ 34 :: escape p ++ [125]) = opening m.2.type ++ 34 :: (escape p ++ [125]) := by
      rw [hx]
      simp
    rw [hpiece, parseAndPrint, Option.map_eq_some_iff] at hline
    obtain ⟨i, -, rfl⟩ := hline
    have hevent : [] = m.2.text := by
      rw [← event_named m.2.type p]
      exact congrArg (fun x => x.2.2) hshown
    exact absurd hevent.symm htext

/-- An object ends with its only closing brace outside of the strings. -/
theorem closing_eq (m : Timed) : ∃ x, closing m = x ++ [125] ∧ 125 ∉ x ∧ 123 ∉ x := by
  have hnumber : ∀ c ∈ FlatJson.dumpValue (.int (asJsonInt m.1)), c ≠ 125 ∧ c ≠ 123 := fun c hc => by
    have hnum := number_plain hc
    constructor <;> rintro rfl <;> exact absurd hnum (by decide)
  have hdigits : ∀ c ∈ FlatJson.digits m.2.channelId.toNat, c ≠ 125 ∧ c ≠ 123 := fun c hc => by
    have hdec := decimal_digits hc
    constructor <;> rintro rfl <;> exact absurd hdec (by decide)
  have hstart : ∀ c ∈ ascii "\", \"timestamp\": ", c ≠ 125 ∧ c ≠ 123 := forall_of_all (by decide)
  have hkey : ∀ c ∈ ascii ", \"channel_id\": ", c ≠ 125 ∧ c ≠ 123 := forall_of_all (by decide)
  have hplain {x : Bytes} (h : ∀ c ∈ x, c ≠ 125 ∧ c ≠ 123) : 125 ∉ x ∧ 123 ∉ x :=
    ⟨fun hc => (h 125 hc).1 rfl, fun hc => (h 123 hc).2 rfl⟩
  unfold closing
  cases m.2.type with
  | user =>
    refine ⟨_, rfl, hplain fun c hc => ?_⟩
    rcases List.mem_append.mp hc with hc | hc
    · exact hstart c hc
    · exact hnumber c hc
  | system =>
    refine ⟨_, (List.append_assoc _ _ _).symm, hplain fun c hc => ?_⟩
    rcases List.mem_append.mp hc with hc | hc
    · rcases List.mem_append.mp hc with hc | hc
      · exact hstart c hc
      · exact hnumber c hc
    · rcases List.mem_append.mp hc with hc | hc
      · exact hkey c hc
      · exact hdigits c hc

/-- What is printed for an object, whole or cut off in its text. -/
theorem shown_object {k : MsgType} {u : Bytes} (hz : z = [] ∨ ∃ y, z = 34 :: y) {line : Line}
    (hline : parseAndPrint (object k u t z) = some line) :
    line.shown = (typeName k, u.flatMap bare, t.flatMap bare) := by
  rw [parseAndPrint, Option.map_eq_some_iff] at hline
  obtain ⟨i, -, rfl⟩ := hline
  obtain ⟨htype, hname, hevent⟩ := strings_object k u t hz
  show (_, _, _) = _
  rw [htype, hname, hevent]

theorem exists_line {json : Bytes} (h : (extractJsonInt json (ascii "channel_id")).isSome = true) :
    ∃ line, parseAndPrint json = some line := by
  rw [← Option.isSome_iff_exists, parseAndPrint, Option.isSome_map]
  exact h

/-- The text has one. -/
theorem scan_text {m : Timed} {p q : Bytes} (hu : 125 ∉ m.2.userName) (ht : m.2.text = p ++ 125 :: q)
    (hp : 125 ∉ p) : ∃ b c, Scan m b c := by
  obtain ⟨x, hx, hx125⟩ := opening_cons m.2.type
  have hesc (q : Bytes) : escape (p ++ 125 :: q) = escape p ++ 125 :: escape q := by
    simp [escape, escapeChar]
  have hpiece : 123 :: (x ++ 34 :: (escape m.2.userName ++ (between ++ 34 :: escape p)) ++ [125]) =
      object m.2.type m.2.userName (p ++ [125]) [] := by
    rw [object, hx, hesc]
    simp [escape]
  refine ⟨x ++ 34 :: (escape m.2.userName ++ (between ++ 34 :: escape p)), escape q ++ closing m, ?_, ?_,
    fun h => ?_, fun _ line hline hshown => ?_⟩
  · rw [written_eq, object, ht, hesc, hx]
    simp
  · simp only [List.mem_append, List.mem_cons, not_or, mem_escape]
    exact ⟨hx125, by decide, hu, by decide, by decide, hp⟩
  · -- the brace is the last character, and so nothing is lost
    have hq : q = [] := by
      by_contra hne
      refine h.brace ?_
      rw [ht, List.dropLast_append_of_ne_nil (by simp), List.dropLast_cons_of_ne_nil hne]
      simp
    subst hq
    obtain ⟨y, hy, -, hy123⟩ := closing_eq m
    obtain ⟨line, hline⟩ : ∃ line, parseAndPrint (object m.2.type m.2.userName (p ++ [125]) []) = some line :=
      exists_line (by rw [int_cut]; rfl)
    refine ⟨by rw [hy]; simpa [escape] using hy123, line, hpiece ▸ hline, ?_⟩
    have hname : m.2.userName.flatMap bare = m.2.userName := flatMap_bare.mpr fun c hc => (h.name c hc).1
    have htext : (p ++ [125]).flatMap bare = m.2.text := by
      rw [← ht]
      exact flatMap_bare.mpr h.text
    rw [shown_object (.inl rfl) hline, hname, htext]
    rfl
  · rw [hpiece] at hline
    rw [shown_object (.inl rfl) hline] at hshown
    have hname : m.2.userName.flatMap bare = m.2.userName := congrArg (fun x => x.2.1) hshown
    have htext : (p ++ [125]).flatMap bare = m.2.text := congrArg (fun x => x.2.2) hshown
    have hge : ∀ c ∈ m.2.text, 32 ≤ c := by
      intro c hc
      rw [← htext, List.mem_flatMap] at hc
      obtain ⟨d, -, hd⟩ := hc
      exact le_of_mem_bare hd
    have hcut : (p ++ [125]).flatMap bare = p ++ [125] := by
      refine flatMap_bare.mpr fun c hc => hge c ?_
      rw [ht]
      rcases List.mem_append.mp hc with hc | hc
      · exact List.mem_append_left _ hc
      · rw [List.mem_singleton.mp hc]
        simp
    have hlast : m.2.text = p ++ [125] := htext.symm.trans hcut
    refine ⟨fun c hc => ⟨flatMap_bare.mp hname c hc, fun h => hu (h ▸ hc)⟩, hge, ?_, fun _ hno => ?_⟩
    · rw [hlast, List.dropLast_concat]
      exact hp
    · exact absurd (by rw [hlast]; simp) hno

/-- Neither has. -/
theorem scan_whole {m : Timed} (hu : 125 ∉ m.2.userName) (ht : 125 ∉ m.2.text) : ∃ b c, Scan m b c := by
  obtain ⟨x, hx, hx125⟩ := opening_cons m.2.type
  obtain ⟨y, hy, hy125, -⟩ := closing_eq m
  have hopen : ∃ w, closing m = 34 :: w := by
    unfold closing
    rw [List.append_assoc]
    exact ⟨_, rfl⟩
  have hpiece : 123 :: (x ++ 34 :: (escape m.2.userName ++ (between ++ 34 :: (escape m.2.text ++ y))) ++
      [125]) = written m := by
    rw [written_eq, object, hx, hy]
    simp
  refine ⟨_, [], hpiece.symm, ?_, fun h => ⟨by simp, ?_⟩, fun _ line hline hshown => ?_⟩
  · simp only [List.mem_append, List.mem_cons, not_or, mem_escape]
    exact ⟨hx125, by decide, hu, by decide, by decide, ht, hy125⟩
  · rw [hpiece]
    obtain ⟨line, hline⟩ := exists_line ((int_written m).mpr fun hsys => h.channel hsys ht)
    refine ⟨line, hline, ?_⟩
    have hname : m.2.userName.flatMap bare = m.2.userName := flatMap_bare.mpr fun c hc => (h.name c hc).1
    have htext : m.2.text.flatMap bare = m.2.text := flatMap_bare.mpr h.text
    rw [written_eq] at hline
    rw [shown_object (.inr hopen) hline, hname, htext]
    rfl
  · rw [hpiece] at hline
    have hint : (extractJsonInt (written m) (ascii "channel_id")).isSome = true := by
      rw [parseAndPrint, Option.map_eq_some_iff] at hline
      obtain ⟨i, hi, -⟩ := hline
      rw [hi]
      rfl
    rw [written_eq] at hline
    rw [shown_object (.inr hopen) hline] at hshown
    have hname : m.2.userName.flatMap bare = m.2.userName := congrArg (fun x => x.2.1) hshown
    have htext : m.2.text.flatMap bare = m.2.text := congrArg (fun x => x.2.2) hshown
    exact ⟨fun c hc => ⟨flatMap_bare.mp hname c hc, fun h => hu (h ▸ hc)⟩, flatMap_bare.mp htext,
      fun h => ht (List.mem_of_mem_dropLast h), fun hsys _ => (int_written m).mp hint hsys⟩

theorem scan (m : Timed) : ∃ b c, Scan m b c := by
  by_cases hu : 125 ∈ m.2.userName
  · obtain ⟨p, q, hpq, hp⟩ := List.eq_append_cons_of_mem hu
    exact scan_name hpq hp
  · by_cases ht : 125 ∈ m.2.text
    · obtain ⟨p, q, hpq, hp⟩ := List.eq_append_cons_of_mem ht
      exact scan_text hu hpq hp
    · exact scan_whole hu ht

/-! ## The array -/

/-- What stands behind an object of the window: the objects that follow, and the bracket. -/
def following (ms : List Timed) : Bytes := ms.flatMap (fun m => ascii ", " ++ written m) ++ [93]

theorem dumpArray_cons (m : Timed) (ms : List Timed) :
    dumpArray ((m :: ms).map fun m => windowEntry m.1 m.2) = 91 :: (written m ++ following ms) := by
  have hjoin : ∀ (x : Bytes) (ms : List Timed), (ascii ", ").intercalate (x :: ms.map written) =
      x ++ ms.flatMap fun m => ascii ", " ++ written m := by
    intro x ms
    induction ms generalizing x with
    | nil => simp [List.intercalate]
    | cons m ms ih =>
      have hcons : (ascii ", ").intercalate (x :: written m :: ms.map written) =
          x ++ (ascii ", " ++ (ascii ", ").intercalate (written m :: ms.map written)) := by
        simp [List.intercalate]
      rw [List.map_cons, hcons, ih, List.flatMap_cons, List.append_assoc]
  have hmap : ((m :: ms).map fun m => windowEntry m.1 m.2).map dumpObject = written m :: ms.map written := by
    rw [List.map_map]
    rfl
  rw [dumpArray, hmap, hjoin, following, List.append_assoc]

/-- The pieces show the messages. -/
def Shows (pieces : List Bytes) (ms : List Timed) : Prop :=
  ∃ lines, pieces.mapM parseAndPrint = some lines ∧ lines.map Line.shown = ms.map original

theorem shows_cons {piece : Bytes} {pieces : List Bytes} {m : Timed} {ms : List Timed} :
    Shows (piece :: pieces) (m :: ms) ↔
      (∃ line, parseAndPrint piece = some line ∧ line.shown = original m) ∧ Shows pieces ms := by
  unfold Shows
  rw [List.mapM_cons]
  constructor
  · rintro ⟨lines, hlines, hshown⟩
    simp only [Option.bind_eq_bind, Option.bind_eq_some_iff, Option.pure_def, Option.some.injEq] at hlines
    obtain ⟨line, hline, rest, hrest, rfl⟩ := hlines
    obtain ⟨hhead, htail⟩ := List.cons.inj hshown
    exact ⟨⟨line, hline, hhead⟩, rest, hrest, htail⟩
  · rintro ⟨⟨line, hline, hhead⟩, rest, hrest, htail⟩
    exact ⟨line :: rest, by simp [hline, hrest], congrArg₂ List.cons hhead htail⟩

/-- **One object.** The scan stands before it, with nothing in between that looks like another one. -/
theorem shows_object {m : Timed} {ms : List Timed} (htext : m.2.text ≠ [])
    (ih : ∀ (x : Bytes) (fuel : Nat), 123 ∉ x → (x ++ following ms).length ≤ fuel →
      (Shows (objects fuel (x ++ following ms)) ms ↔ ∀ m ∈ ms, Readable m.2))
    {x : Bytes} {fuel : Nat} (hx : 123 ∉ x) (hfuel : (x ++ (written m ++ following ms)).length ≤ fuel) :
    Shows (objects fuel (x ++ (written m ++ following ms))) (m :: ms) ↔ ∀ m' ∈ m :: ms, Readable m'.2 := by
  obtain ⟨b, c, hs⟩ := scan m
  have hcut : x ++ (written m ++ following ms) = x ++ 123 :: (b ++ 125 :: (c ++ following ms)) := by
    rw [hs.object]
    simp
  cases fuel with
  | zero =>
    rw [hcut] at hfuel
    simp at hfuel
  | succ fuel =>
    rw [hcut, objects_cut hx hs.first, shows_cons, List.forall_mem_cons]
    have hrest : (c ++ following ms).length ≤ fuel := by
      rw [hcut] at hfuel
      simp only [List.length_append, List.length_cons] at hfuel ⊢
      omega
    constructor
    · rintro ⟨⟨line, hline, hshown⟩, hshows⟩
      have hread := hs.bad htext line hline hshown
      exact ⟨hread, (ih c fuel (hs.good hread).1 hrest).mp hshows⟩
    · rintro ⟨hread, hall⟩
      obtain ⟨hc, hline⟩ := hs.good hread
      exact ⟨hline, (ih c fuel hc hrest).mpr hall⟩

theorem shows_following : ∀ {ms : List Timed}, (∀ m ∈ ms, m.2.text ≠ []) → ∀ (x : Bytes) (fuel : Nat),
    123 ∉ x → (x ++ following ms).length ≤ fuel →
      (Shows (objects fuel (x ++ following ms)) ms ↔ ∀ m ∈ ms, Readable m.2) := by
  intro ms
  induction ms with
  | nil =>
    intro _ x fuel hx _
    have hnone : objects fuel (x ++ following []) = [] := by
      refine objects_nil (fun a b c h => ?_) fuel
      have hmem : 123 ∈ x ++ following [] := by rw [h]; simp
      exact absurd hmem (by simpa [following] using hx)
    rw [hnone]
    exact iff_of_true ⟨[], rfl, rfl⟩ (by simp)
  | cons m ms ih =>
    intro htext x fuel hx hfuel
    have hnext : x ++ following (m :: ms) = x ++ ascii ", " ++ (written m ++ following ms) := by
      simp [following]
    rw [hnext] at hfuel ⊢
    refine shows_object (htext m List.mem_cons_self) (ih fun m hm => htext m (List.mem_cons_of_mem _ hm)) ?_ hfuel
    intro h
    rcases List.mem_append.mp h with h | h
    · exact hx h
    · exact absurd h (by decide)

end

/-- **The Windows client reads a window** as it was written exactly if all of its messages are readable. -/
theorem reads_iff {ms : List Timed} (htext : ∀ m ∈ ms, m.2.text ≠ []) :
    Reads ms ↔ ∀ m ∈ ms, Readable m.2 := by
  cases ms with
  | nil => exact iff_of_true ⟨[], rfl, rfl⟩ (by simp)
  | cons m ms =>
    have hdisplay : displayMessage (dumpArray ((m :: ms).map fun m => windowEntry m.1 m.2)) =
        (objects (written m ++ following ms).length (written m ++ following ms)).mapM parseAndPrint := by
      rw [dumpArray_cons]
      rfl
    unfold Reads
    rw [hdisplay]
    have hlist : ∀ m' ∈ ms, m'.2.text ≠ [] := fun m' hm => htext m' (List.mem_cons_of_mem _ hm)
    exact shows_object (htext m List.mem_cons_self) (shows_following hlist) (x := []) (by simp) le_rfl

/-- A message of `ann`. -/
def userSends (text : Bytes) : Timed := ⟨1, ⟨.user, text, 1, ascii "ann", 0⟩⟩

/-- `ann` comes into channel 2 and greets. -/
theorem reads_hi : Reads [⟨1, ⟨.system, ascii "join", 1, ascii "ann", 2⟩⟩, userSends (ascii "hi")] :=
  (reads_iff (by decide)).mpr <| List.forall_mem_cons.mpr ⟨
    ⟨forall_of_all (by decide), forall_of_all (by decide), by decide, by decide⟩,
    List.forall_mem_singleton.mpr ⟨forall_of_all (by decide), forall_of_all (by decide), by decide, by decide⟩⟩

/-- A smiley with a nose. -/
theorem brace_lost : (∀ m ∈ [userSends (ascii ":\x7d-")], m.2.text ≠ [] ∧ m.2.userName ≠ []) ∧
    ¬ Reads [userSends (ascii ":\x7d-")] := by
  refine ⟨by decide, ?_⟩
  rintro ⟨lines, hlines, hshown⟩
  have hread : displayMessage (dumpArray ([userSends (ascii ":\x7d-")].map fun m => windowEntry m.1 m.2)) =
      some [⟨ascii "user", ascii "ann", ascii ":\x7d", [], 0⟩] := by
    decide +kernel
  rw [hread] at hlines
  cases hlines
  exact absurd hshown (by decide)

end ChatChannel.Client
