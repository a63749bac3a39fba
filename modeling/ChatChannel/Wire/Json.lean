import Mathlib.Algebra.Group.Int.Defs
import Mathlib.Algebra.Group.Nat.Defs
import Mathlib.Data.List.Basic

/-!
# Flat JSON

Objects whose members are strings and integers, as texts over bytes. The grammar (`Obj`) says what a text denotes.
`object?` reads texts, and it reads every text of the grammar as what it denotes (`object?_of_obj`), so a text denotes
one thing only.

Bytes from 128 on stand for themselves; a `\u` escape is read if it stands for an ASCII character.
-/

set_option autoImplicit false

namespace Json

/-! ## What texts denote -/

inductive Value
  | str (s : List UInt8)
  | int (i : Int)
  deriving DecidableEq

/-- The members of an object, in the order of the text. -/
abbrev Members := List (List UInt8 × Value)

/-- The value of a key. Of several members with one key the last one counts. -/
def lookup (m : Members) (key : List UInt8) : Option Value :=
  (m.reverse.find? fun p => p.1 = key).map Prod.snd

def str? (m : Members) (key : List UInt8) : Option (List UInt8) :=
  match lookup m key with
  | some (.str s) => some s
  | _ => none

def int? (m : Members) (key : List UInt8) : Option Int :=
  match lookup m key with
  | some (.int i) => some i
  | _ => none

/-! ## Grammar -/

def blank (c : UInt8) : Bool := c == 32 || c == 9 || c == 10 || c == 13

def digit (c : UInt8) : Bool := 48 ≤ c && c ≤ 57

/-- White space between tokens. -/
def Blanks (w : List UInt8) : Prop := ∀ c ∈ w, blank c = true

/-- What a character stands for behind a backslash. -/
def short (e : UInt8) : Option UInt8 :=
  if e = 34 ∨ e = 92 ∨ e = 47 then some e
  else if e = 98 then some 8
  else if e = 102 then some 12
  else if e = 110 then some 10
  else if e = 114 then some 13
  else if e = 116 then some 9
  else none

/-- The value of a hexadecimal digit. -/
def hex? (c : UInt8) : Option Nat :=
  if digit c then some (c.toNat - 48)
  else if 97 ≤ c && c ≤ 102 then some (c.toNat - 87)
  else if 65 ≤ c && c ≤ 70 then some (c.toNat - 55)
  else none

/-- The ASCII character that four hexadecimal digits stand for; there is none with the code 0. -/
def code? (a b c d : UInt8) : Option UInt8 := do
  let v := (((← hex? a) * 16 + (← hex? b)) * 16 + (← hex? c)) * 16 + (← hex? d)
  if 0 < v ∧ v < 128 then some v.toUInt8 else none

/-- The inside of a string, and the string. -/
inductive Chars : List UInt8 → List UInt8 → Prop
  | nil : Chars [] []
  | plain {c : UInt8} {s t : List UInt8} : 32 ≤ c → c ≠ 34 → c ≠ 92 → Chars s t → Chars (c :: s) (c :: t)
  | short {e c : UInt8} {s t : List UInt8} : short e = some c → Chars s t → Chars (92 :: e :: s) (c :: t)
  | code {a b c d x : UInt8} {s t : List UInt8} : code? a b c d = some x → Chars s t →
      Chars (92 :: 117 :: a :: b :: c :: d :: s) (x :: t)

/-- The value of decimal digits. -/
def value (ds : List UInt8) : Nat := ds.foldl (fun v c => 10 * v + (c.toNat - 48)) 0

/-- Decimal digits, without a zero in front. -/
structure Numeral (ds : List UInt8) : Prop where
  digits : ∀ c ∈ ds, digit c = true
  nonempty : ds ≠ []
  canonical : ds.head? = some 48 → ds = [48]

/-- A signed 64-bit integer. -/
inductive Integer : List UInt8 → Int → Prop
  | natural {ds : List UInt8} : Numeral ds → value ds < 2 ^ 63 → Integer ds (value ds)
  | negative {ds : List UInt8} : Numeral ds → value ds ≤ 2 ^ 63 → Integer (45 :: ds) (-value ds)

inductive ValueText : List UInt8 → Value → Prop
  | str {s t : List UInt8} : Chars s t → ValueText (34 :: (s ++ [34])) (.str t)
  | int {s : List UInt8} {i : Int} : Integer s i → ValueText s (.int i)

/-- A member, with the white space around its tokens. -/
inductive Member : List UInt8 → List UInt8 × Value → Prop
  | mk {w₀ k key w₁ w₂ s w₃ : List UInt8} {v : Value} : Blanks w₀ → Chars k key → Blanks w₁ → Blanks w₂ →
      ValueText s v → Blanks w₃ → Member (w₀ ++ 34 :: (k ++ 34 :: (w₁ ++ 58 :: (w₂ ++ (s ++ w₃))))) (key, v)

/-- Members separated by commas. -/
inductive Listing : List UInt8 → Members → Prop
  | one {s : List UInt8} {p : List UInt8 × Value} : Member s p → Listing s [p]
  | more {s t : List UInt8} {p : List UInt8 × Value} {m : Members} : Member s p → Listing t m →
      Listing (s ++ 44 :: t) (p :: m)

/-- An object, with white space around it. -/
inductive Obj : List UInt8 → Members → Prop
  | empty {w₀ w w₁ : List UInt8} : Blanks w₀ → Blanks w → Blanks w₁ → Obj (w₀ ++ 123 :: (w ++ 125 :: w₁)) []
  | full {w₀ s w₁ : List UInt8} {m : Members} : Blanks w₀ → Listing s m → Blanks w₁ →
      Obj (w₀ ++ 123 :: (s ++ 125 :: w₁)) m

/-! ## Writing -/

theorem Chars.append {s s' t t' : List UInt8} (h : Chars s t) (h' : Chars s' t') : Chars (s ++ s') (t ++ t') := by
  induction h with
  | nil => exact h'
  | plain hc h34 h92 _ ih => exact .plain hc h34 h92 ih
  | short he _ ih => exact .short he ih
  | code hx _ ih => exact .code hx ih

/-- What is escaped character by character stands for what it was. -/
theorem Chars.flatMap {esc : UInt8 → List UInt8} {s : List UInt8} (h : ∀ c ∈ s, Chars (esc c) [c]) :
    Chars (s.flatMap esc) s := by
  induction s with
  | nil => exact .nil
  | cons c s ih =>
    exact (h c List.mem_cons_self).append (ih fun d hd => h d (List.mem_cons_of_mem _ hd))

/-- A string that needs no escapes. -/
theorem chars_self {s : List UInt8} (h : ∀ c ∈ s, 32 ≤ c ∧ c ≠ 34 ∧ c ≠ 92) : Chars s s := by
  induction s with
  | nil => exact .nil
  | cons c s ih =>
    obtain ⟨hc, h34, h92⟩ := h c List.mem_cons_self
    exact .plain hc h34 h92 (ih fun d hd => h d (List.mem_cons_of_mem _ hd))

/-- A member with white space behind the colon only. -/
theorem Member.of {k key w s : List UInt8} {v : Value} (hk : Chars k key) (hw : Blanks w) (hv : ValueText s v) :
    Member (34 :: (k ++ 34 :: 58 :: (w ++ s))) (key, v) := by
  have hnone : Blanks [] := fun c hc => by cases hc
  have h := Member.mk hnone hk hnone hw hv hnone
  simpa using h

theorem Blanks.append {w w' : List UInt8} (h : Blanks w) (h' : Blanks w') : Blanks (w ++ w') := by
  intro c hc
  rcases List.mem_append.mp hc with hc | hc
  · exact h c hc
  · exact h' c hc

theorem Member.blanks {w s : List UInt8} {p : List UInt8 × Value} (hw : Blanks w) (h : Member s p) :
    Member (w ++ s) p := by
  cases h with
  | @mk w₀ k key w₁ w₂ s w₃ v hw₀ hk hw₁ hw₂ hv hw₃ =>
    have h := @Member.mk (w ++ w₀) k key w₁ w₂ s w₃ v (hw.append hw₀) hk hw₁ hw₂ hv hw₃
    rwa [List.append_assoc] at h

theorem Listing.blanks {w s : List UInt8} {m : Members} (hw : Blanks w) (h : Listing s m) : Listing (w ++ s) m := by
  cases h with
  | one h => exact .one (h.blanks hw)
  | more h ht =>
    rw [← List.append_assoc]
    exact .more (h.blanks hw) ht

/-- Members with a comma and white space between them. -/
theorem listing_intercalate {w : List UInt8} {ss : List (List UInt8)} {m : Members} (hw : Blanks w)
    (h : List.Forall₂ Member ss m) (hne : ss ≠ []) : Listing ((44 :: w).intercalate ss) m := by
  induction h with
  | nil => exact absurd rfl hne
  | @cons s p ss m hs hss ih =>
    cases hss with
    | nil => simpa [List.intercalate] using Listing.one hs
    | @cons s' p' ss m hs' hss =>
      have hrest := (ih (List.cons_ne_nil _ _)).blanks hw
      have hjoin : (44 :: w).intercalate (s :: s' :: ss) = s ++ 44 :: (w ++ (44 :: w).intercalate (s' :: ss)) := by
        simp [List.intercalate]
      rw [hjoin]
      exact .more hs hrest

theorem Obj.of {s : List UInt8} {m : Members} (h : Listing s m) : Obj (123 :: (s ++ [125])) m := by
  have hnone : Blanks [] := fun c hc => by cases hc
  exact Obj.full hnone h hnone

/-- The texts have no character with the code 0. -/
def Nonzero (s : List UInt8) : Prop := 0 ∉ s

theorem nonzero_append {s t : List UInt8} (hs : Nonzero s) (ht : Nonzero t) : Nonzero (s ++ t) := by
  intro h
  rcases List.mem_append.mp h with h | h
  · exact hs h
  · exact ht h

theorem nonzero_cons {c : UInt8} {s : List UInt8} (hc : c ≠ 0) (hs : Nonzero s) : Nonzero (c :: s) := by
  intro h
  rcases List.mem_cons.mp h with h | h
  · exact hc h.symm
  · exact hs h

theorem Blanks.nonzero {w : List UInt8} (h : Blanks w) : Nonzero w := by
  intro h0
  exact absurd (h 0 h0) (by decide)

theorem Chars.nonzero {s t : List UInt8} (h : Chars s t) : Nonzero s := by
  have hhex {c : UInt8} {n : Nat} (h : hex? c = some n) : c ≠ 0 := by
    rintro rfl
    cases h
  induction h with
  | nil => exact List.not_mem_nil
  | plain hc _ _ _ ih =>
    refine nonzero_cons ?_ ih
    rintro rfl
    exact absurd hc (by decide)
  | short he _ ih =>
    refine nonzero_cons (by decide) (nonzero_cons ?_ ih)
    rintro rfl
    cases he
  | code hx _ ih =>
    simp only [code?, Option.bind_eq_bind, Option.bind_eq_some_iff] at hx
    obtain ⟨_, ha, _, hb, _, hc, _, hd, -⟩ := hx
    exact nonzero_cons (by decide) (nonzero_cons (by decide) (nonzero_cons (hhex ha) (nonzero_cons (hhex hb)
      (nonzero_cons (hhex hc) (nonzero_cons (hhex hd) ih)))))

theorem ValueText.nonzero {s : List UInt8} {v : Value} (h : ValueText s v) : Nonzero s := by
  have hdigits {ds : List UInt8} (h : Numeral ds) : Nonzero ds := by
    intro h0
    exact absurd (h.digits 0 h0) (by decide)
  cases h with
  | str h => exact nonzero_cons (by decide) (nonzero_append h.nonzero (nonzero_cons (by decide) List.not_mem_nil))
  | int h =>
    cases h with
    | natural h => exact hdigits h
    | negative h => exact nonzero_cons (by decide) (hdigits h)

theorem Obj.nonzero {s : List UInt8} {m : Members} (h : Obj s m) : Nonzero s := by
  have hmember {s : List UInt8} {p : List UInt8 × Value} (h : Member s p) : Nonzero s := by
    cases h with
    | mk hw₀ hk hw₁ hw₂ hv hw₃ =>
      exact nonzero_append hw₀.nonzero (nonzero_cons (by decide) (nonzero_append hk.nonzero (nonzero_cons (by decide)
        (nonzero_append hw₁.nonzero (nonzero_cons (by decide) (nonzero_append hw₂.nonzero
          (nonzero_append hv.nonzero hw₃.nonzero)))))))
  have hlisting {s : List UInt8} {m : Members} (h : Listing s m) : Nonzero s := by
    induction h with
    | one h => exact hmember h
    | more h _ ih => exact nonzero_append (hmember h) (nonzero_cons (by decide) ih)
  cases h with
  | empty hw₀ hw hw₁ =>
    exact nonzero_append hw₀.nonzero (nonzero_cons (by decide) (nonzero_append hw.nonzero
      (nonzero_cons (by decide) hw₁.nonzero)))
  | full hw₀ hs hw₁ =>
    exact nonzero_append hw₀.nonzero (nonzero_cons (by decide) (nonzero_append (hlisting hs)
      (nonzero_cons (by decide) hw₁.nonzero)))

/-! ## UTF-8 -/

/-- Encoded characters. -/
def Utf8 (s : List UInt8) : Prop := ∃ cs : List Char, s = cs.flatMap String.utf8EncodeChar

/-- A character is a byte below 128, or bytes from 128 on. -/
theorem utf8EncodeChar_cases (ch : Char) : (∃ c : UInt8, c < 128 ∧ String.utf8EncodeChar ch = [c]) ∨
    ∀ c ∈ String.utf8EncodeChar ch, 128 ≤ c := by
  have hhigh (n k : Nat) (hn : 128 ≤ n ∧ n < 256) (hk : k = n) : (128 : UInt8) ≤ .ofNat k := by
    subst hk
    rw [UInt8.le_iff_toNat_le, UInt8.toNat_ofNat_of_lt' (by simpa [UInt8.size] using hn.2)]
    exact hn.1
  fun_cases String.utf8EncodeChar ch with
  | case1 v hv =>
    refine .inl ⟨_, ?_, rfl⟩
    rw [UInt8.lt_iff_toNat_lt, UInt8.toNat_ofNat_of_lt' (by simp [UInt8.size]; omega)]
    exact Nat.lt_succ_of_le hv
  | case2 v hv h2 =>
    refine .inr fun c hc => ?_
    simp only [List.mem_cons, List.not_mem_nil, or_false] at hc
    rcases hc with rfl | rfl <;> exact hhigh _ _ (by omega) rfl
  | case3 v hv h2 h3 =>
    refine .inr fun c hc => ?_
    simp only [List.mem_cons, List.not_mem_nil, or_false] at hc
    rcases hc with rfl | rfl | rfl <;> exact hhigh _ _ (by omega) rfl
  | case4 v hv h2 h3 =>
    refine .inr fun c hc => ?_
    simp only [List.mem_cons, List.not_mem_nil, or_false] at hc
    rcases hc with rfl | rfl | rfl | rfl <;> exact hhigh _ _ (by omega) rfl

theorem Utf8.append {s t : List UInt8} (hs : Utf8 s) (ht : Utf8 t) : Utf8 (s ++ t) := by
  obtain ⟨cs, rfl⟩ := hs
  obtain ⟨ds, rfl⟩ := ht
  exact ⟨cs ++ ds, List.flatMap_append.symm⟩

theorem utf8_of_ascii {s : List UInt8} (h : ∀ c ∈ s, c < 128) : Utf8 s := by
  induction s with
  | nil => exact ⟨[], rfl⟩
  | cons c s ih =>
    have hc : c.toNat < 128 := h c List.mem_cons_self
    refine Utf8.append (s := [c]) ⟨[Char.ofNat c.toNat], ?_⟩ (ih fun d hd => h d (List.mem_cons_of_mem _ hd))
    have hvalid : c.toNat.isValidChar := .inl (Nat.lt_trans hc (by decide))
    have hval : (Char.ofNat c.toNat).val.toNat = c.toNat := by
      rw [Char.ofNat, dif_pos hvalid]
      rfl
    rw [List.flatMap_singleton, String.utf8EncodeChar]
    simp only [hval, if_pos (Nat.le_of_lt_succ hc), UInt8.ofNat_toNat]

theorem Utf8.intercalate {sep : List UInt8} {ss : List (List UInt8)} (hsep : Utf8 sep) (h : ∀ s ∈ ss, Utf8 s) :
    Utf8 (sep.intercalate ss) := by
  induction ss with
  | nil => exact ⟨[], rfl⟩
  | cons s ss ih =>
    have hs := h s List.mem_cons_self
    cases ss with
    | nil => simpa [List.intercalate] using hs
    | cons s' ss =>
      have hrest := ih fun x hx => h x (List.mem_cons_of_mem _ hx)
      have hjoin : sep.intercalate (s :: s' :: ss) = s ++ (sep ++ sep.intercalate (s' :: ss)) := by
        simp [List.intercalate]
      rw [hjoin]
      exact hs.append (hsep.append hrest)

/-- What an escape does to bytes that are not characters of their own: nothing. -/
theorem Utf8.flatMap {esc : UInt8 → List UInt8} (hlow : ∀ c < 128, ∀ d ∈ esc c, d < 128)
    (hhigh : ∀ c, 128 ≤ c → esc c = [c]) {s : List UInt8} (h : Utf8 s) : Utf8 (s.flatMap esc) := by
  obtain ⟨cs, rfl⟩ := h
  induction cs with
  | nil => exact ⟨[], rfl⟩
  | cons ch cs ih =>
    rw [List.flatMap_cons, List.flatMap_append]
    refine Utf8.append ?_ ih
    rcases utf8EncodeChar_cases ch with ⟨c, hc, hch⟩ | hch
    · rw [hch, List.flatMap_singleton]
      exact utf8_of_ascii (hlow c hc)
    · have hsame : (String.utf8EncodeChar ch).flatMap esc = String.utf8EncodeChar ch := by
        have hid : (String.utf8EncodeChar ch).flatMap esc = (String.utf8EncodeChar ch).flatMap ([·]) :=
          List.flatMap_congr fun c hc => hhigh c (hch c hc)
        rw [hid, List.flatMap_singleton']
      rw [hsame]
      exact ⟨[ch], (List.flatMap_singleton _ _).symm⟩

/-! ## Reading -/

def skip (s : List UInt8) : List UInt8 := s.dropWhile blank

/-- A character that has to be next, and the white space behind it. -/
def expect (c : UInt8) : List UInt8 → Option (List UInt8)
  | [] => none
  | d :: s => if d = c then some (skip s) else none

/-- A string up to its closing quote, and what is behind that. -/
def chars? : List UInt8 → Option (List UInt8 × List UInt8)
  | [] => none
  | 92 :: 117 :: a :: b :: c :: d :: s => do
    let x ← code? a b c d
    let (t, rest) ← chars? s
    some (x :: t, rest)
  | 92 :: e :: s => do
    let c ← short e
    let (t, rest) ← chars? s
    some (c :: t, rest)
  | c :: s =>
    if c = 34 then some ([], s)
    else if c < 32 ∨ c = 92 then none
    else do
      let (t, rest) ← chars? s
      some (c :: t, rest)

/-- Digits in front, if they make a numeral. -/
def numeral? (s : List UInt8) : Option (Nat × List UInt8) :=
  let ds := s.takeWhile digit
  if ds = [] ∨ ds.head? = some 48 ∧ ds ≠ [48] then none else some (value ds, s.dropWhile digit)

def value? : List UInt8 → Option (Value × List UInt8)
  | [] => none
  | c :: s =>
    if c = 34 then (chars? s).map fun p => (.str p.1, p.2)
    else if c = 45 then do
      let (n, rest) ← numeral? s
      if n ≤ 2 ^ 63 then some (.int (-n), rest) else none
    else do
      let (n, rest) ← numeral? (c :: s)
      if n < 2 ^ 63 then some (.int n, rest) else none

def member? (s : List UInt8) : Option ((List UInt8 × Value) × List UInt8) :=
  match skip s with
  | 34 :: s => do
    let (key, s) ← chars? s
    let s ← expect 58 (skip s)
    let (v, s) ← value? s
    some ((key, v), skip s)
  | _ => none

/-- Members up to the closing brace, with fuel for as many as there are bytes. -/
def members? : Nat → List UInt8 → Option (Members × List UInt8)
  | 0, _ => none
  | fuel + 1, s => do
    let (p, s) ← member? s
    match s with
    | 44 :: s => do
      let (m, rest) ← members? fuel s
      some (p :: m, rest)
    | 125 :: rest => some ([p], skip rest)
    | _ => none

/-- An object in front, and what is behind it. -/
def objectAt? (s : List UInt8) : Option (Members × List UInt8) :=
  match expect 123 (skip s) with
  | none => none
  | some (125 :: rest) => some ([], skip rest)
  | some s => members? s.length s

def object? (s : List UInt8) : Option Members :=
  match objectAt? s with
  | some (m, []) => some m
  | _ => none

/-! ## Every text is read as what it denotes -/

variable {w r s t : List UInt8} {v : Value} {m : Members}

/-- No white space in front. -/
def Sharp (r : List UInt8) : Prop := ∀ c ∈ r.head?, blank c = false

/-- No digit in front. -/
def Stop (r : List UInt8) : Prop := ∀ c ∈ r.head?, digit c = false

theorem sharp_cons {c : UInt8} (hc : blank c = false) (r : List UInt8) : Sharp (c :: r) := by
  intro d hd
  cases hd
  exact hc

theorem skip_blanks (hw : Blanks w) (hr : Sharp r) : skip (w ++ r) = r := by
  unfold skip
  rw [List.dropWhile_append_of_pos hw]
  cases r with
  | nil => rfl
  | cons c r => exact List.dropWhile_cons_of_neg (by rw [hr c rfl]; exact Bool.false_ne_true)

theorem expect_blanks {c : UInt8} (hw : Blanks w) (hr : Sharp r) : expect c (c :: (w ++ r)) = some r := by
  show (if c = c then some (skip (w ++ r)) else none) = some r
  rw [if_pos rfl, skip_blanks hw hr]

theorem chars?_of_chars (h : Chars s t) (r : List UInt8) : chars? (s ++ 34 :: r) = some (t, r) := by
  induction h with
  | nil => rfl
  | @plain c s t hc h34 h92 h ih =>
    have hlow : ¬ c < 32 := UInt8.not_lt.mpr hc
    simp [chars?, h34, h92, hlow, ih]
  | @short e c s t he h ih =>
    have hne : e ≠ 117 := by
      rintro rfl
      cases he
    simp [chars?, hne, he, ih]
  | code hx h ih => simp [chars?, hx, ih]

theorem numeral?_of_numeral {ds : List UInt8} (h : Numeral ds) (hr : Stop r) :
    numeral? (ds ++ r) = some (value ds, r) := by
  have htake : (ds ++ r).takeWhile digit = ds := by
    rw [List.takeWhile_append_of_pos h.digits]
    cases r with
    | nil => exact List.append_nil ds
    | cons c r => rw [List.takeWhile_cons_of_neg (by rw [hr c rfl]; exact Bool.false_ne_true), List.append_nil]
  have hdrop : (ds ++ r).dropWhile digit = r := by
    rw [List.dropWhile_append_of_pos h.digits]
    cases r with
    | nil => rfl
    | cons c r => exact List.dropWhile_cons_of_neg (by rw [hr c rfl]; exact Bool.false_ne_true)
  unfold numeral?
  rw [htake, hdrop, if_neg]
  rintro (hnil | ⟨hzero, hne⟩)
  · exact h.nonempty hnil
  · exact hne (h.canonical hzero)

theorem value?_of_valueText (h : ValueText s v) (hr : Stop r) : value? (s ++ r) = some (v, r) := by
  cases h with
  | @str s t h =>
    have hread := chars?_of_chars h r
    rw [List.cons_append, List.append_assoc, List.singleton_append]
    simp [value?, hread]
  | int h =>
    cases h with
    | natural hd hv =>
      obtain ⟨c, ds, rfl⟩ := List.exists_cons_of_ne_nil hd.nonempty
      have hc := hd.digits c List.mem_cons_self
      have h34 : c ≠ 34 := by
        rintro rfl
        exact absurd hc (by decide)
      have h45 : c ≠ 45 := by
        rintro rfl
        exact absurd hc (by decide)
      have hread := numeral?_of_numeral hd hr
      rw [List.cons_append] at hread ⊢
      unfold value?
      dsimp only
      rw [if_neg h34, if_neg h45, hread]
      exact if_pos hv
    | @negative ds hd hv =>
      have hread := numeral?_of_numeral hd hr
      rw [List.cons_append]
      have hminus : (45 : UInt8) ≠ 34 := by decide
      unfold value?
      dsimp only
      rw [if_neg hminus, if_pos rfl, hread]
      exact if_pos hv

/-- A comma or a closing bracket in front. -/
def Closes (r : List UInt8) : Prop := ∀ c ∈ r.head?, c = 44 ∨ c = 93 ∨ c = 125

theorem Closes.sharp (h : Closes r) : Sharp r := by
  intro c hc
  rcases h c hc with rfl | rfl | rfl <;> rfl

/-- White space does not go on a number. -/
theorem Closes.stop (h : Closes r) (hw : Blanks w) : Stop (w ++ r) := by
  intro c hc
  cases w with
  | nil => rcases h c hc with rfl | rfl | rfl <;> rfl
  | cons d w =>
    cases hc
    have hd := hw c List.mem_cons_self
    unfold blank at hd
    simp only [Bool.or_eq_true, beq_iff_eq] at hd
    rcases hd with ((rfl | rfl) | rfl) | rfl <;> rfl

theorem sharp_quote (x : List UInt8) : Sharp (34 :: x) := sharp_cons rfl x

theorem ValueText.sharp (h : ValueText s v) (x : List UInt8) : Sharp (s ++ x) := by
  cases h with
  | str h => exact sharp_quote _
  | int h =>
    have hdigits {ds : List UInt8} (hd : Numeral ds) : Sharp (ds ++ x) := by
      obtain ⟨c, ds, rfl⟩ := List.exists_cons_of_ne_nil hd.nonempty
      refine sharp_cons ?_ _
      have hc := hd.digits c List.mem_cons_self
      by_contra hb
      have hb : blank c = true := by simpa using hb
      unfold blank at hb
      simp only [Bool.or_eq_true, beq_iff_eq] at hb
      rcases hb with ((rfl | rfl) | rfl) | rfl <;> exact absurd hc (by decide)
    cases h with
    | natural hd hv => exact hdigits hd
    | negative hd hv => exact sharp_cons rfl _

theorem member?_of_member {p : List UInt8 × Value} (h : Member s p) (hr : Closes r) :
    member? (s ++ r) = some (p, r) := by
  cases h with
  | @mk w₀ k key w₁ w₂ s w₃ v hw₀ hk hw₁ hw₂ hv hw₃ =>
    simp only [List.append_assoc, List.cons_append]
    have hkey := chars?_of_chars hk (w₁ ++ 58 :: (w₂ ++ (s ++ (w₃ ++ r))))
    have hcolon := expect_blanks (c := 58) hw₂ (hv.sharp (w₃ ++ r))
    have hval := value?_of_valueText hv (hr.stop hw₃)
    unfold member?
    rw [skip_blanks hw₀ (sharp_quote _)]
    simp [hkey, skip_blanks hw₁ (sharp_cons (c := 58) rfl _), hcolon, hval, skip_blanks hw₃ hr.sharp]

/-- Behind white space, a listing begins with a quote and goes on as one. -/
theorem Listing.skip (h : Listing s m) : ∃ s', Listing (34 :: s') m ∧ ∀ x, skip (s ++ x) = 34 :: (s' ++ x) := by
  have hone {s : List UInt8} {p : List UInt8 × Value} (h : Member s p) :
      ∃ s', Member (34 :: s') p ∧ ∀ x, Json.skip (s ++ x) = 34 :: (s' ++ x) := by
    cases h with
    | @mk w₀ k key w₁ w₂ s w₃ v hw₀ hk hw₁ hw₂ hv hw₃ =>
      refine ⟨k ++ 34 :: (w₁ ++ 58 :: (w₂ ++ (s ++ w₃))), @Member.mk [] k key w₁ w₂ s w₃ v (fun _ h => by cases h) hk hw₁
        hw₂ hv hw₃, fun x => ?_⟩
      rw [List.append_assoc, List.cons_append, skip_blanks hw₀ (sharp_quote _)]
  cases h with
  | one h =>
    obtain ⟨s', hs', hskip⟩ := hone h
    exact ⟨s', .one hs', hskip⟩
  | @more s t p m h ht =>
    obtain ⟨s', hs', hskip⟩ := hone h
    refine ⟨s' ++ 44 :: t, .more hs' ht, fun x => ?_⟩
    rw [List.append_assoc, List.append_assoc]
    exact hskip _

theorem Listing.length_le (h : Listing s m) : m.length ≤ s.length := by
  have hone {s : List UInt8} {p : List UInt8 × Value} (h : Member s p) : 1 ≤ s.length := by
    cases h
    simp
    omega
  induction h with
  | one h => exact hone h
  | more h ht ih =>
    rw [List.length_cons, List.length_append, List.length_cons]
    omega

theorem members?_of_listing (h : Listing s m) (r : List UInt8) {fuel : Nat} (hf : m.length ≤ fuel) :
    members? fuel (s ++ 125 :: r) = some (m, Json.skip r) := by
  have hbrace (x : List UInt8) : Closes (125 :: x) := fun c hc => by
    cases hc
    exact .inr (.inr rfl)
  have hcomma (x : List UInt8) : Closes (44 :: x) := fun c hc => by
    cases hc
    exact .inl rfl
  induction h generalizing fuel with
  | one h =>
    obtain ⟨fuel, rfl⟩ := Nat.exists_eq_succ_of_ne_zero (Nat.ne_of_gt hf)
    simp [members?, member?_of_member h (hbrace r)]
  | @more s t p m h ht ih =>
    obtain ⟨fuel, rfl⟩ := Nat.exists_eq_succ_of_ne_zero (Nat.ne_of_gt (Nat.lt_of_lt_of_le (Nat.succ_pos _) hf))
    have hrest : members? fuel (t ++ 125 :: r) = some (m, Json.skip r) := ih (Nat.le_of_succ_le_succ hf)
    rw [List.append_assoc, List.cons_append]
    simp [members?, member?_of_member h (hcomma _), hrest]

theorem objectAt?_of_obj (h : Obj s m) (hr : Closes r) : objectAt? (s ++ r) = some (m, r) := by
  have hbrace (x : List UInt8) : Sharp (123 :: x) := sharp_cons rfl x
  cases h with
  | @empty w₀ w w₁ hw₀ hw hw₁ =>
    rw [List.append_assoc, List.cons_append, List.append_assoc, List.cons_append]
    unfold objectAt?
    rw [skip_blanks hw₀ (hbrace _), expect_blanks hw (sharp_cons rfl _)]
    simp [skip_blanks hw₁ hr.sharp]
  | @full w₀ s w₁ m hw₀ hs hw₁ =>
    obtain ⟨s', hs', hskip⟩ := hs.skip
    rw [List.append_assoc, List.cons_append, List.append_assoc, List.cons_append]
    have hopen : expect 123 (123 :: (s ++ 125 :: (w₁ ++ r))) = some (34 :: (s' ++ 125 :: (w₁ ++ r))) := by
      show (if (123 : UInt8) = 123 then some (Json.skip _) else none) = _
      rw [if_pos rfl, hskip]
    have hfuel : m.length ≤ (34 :: (s' ++ 125 :: (w₁ ++ r))).length := by
      have hlen := hs'.length_le
      rw [List.length_cons] at hlen ⊢
      rw [List.length_append]
      omega
    have hread := members?_of_listing hs' (w₁ ++ r) hfuel
    unfold objectAt?
    rw [skip_blanks hw₀ (hbrace _), hopen]
    rw [List.cons_append, skip_blanks hw₁ hr.sharp] at hread
    exact hread

/-- **A text that denotes an object is read as that object.** -/
theorem object?_of_obj (h : Obj s m) : object? s = some m := by
  have hread := objectAt?_of_obj (r := []) h fun c hc => by cases hc
  rw [List.append_nil] at hread
  unfold object?
  rw [hread]

/-! ## What has been read -/

/-- Behind the first member, the rest of the members has been read. -/
theorem members?_rest {p : List UInt8 × Value} {fuel : Nat} {x : Members × List UInt8} (h : Member s p)
    (hx : members? fuel (s ++ 44 :: t) = some x) : ∃ k y, members? k t = some y := by
  have hcomma : Closes (44 :: t) := fun c hc => by
    cases hc
    exact .inl rfl
  cases fuel with
  | zero => cases hx
  | succ fuel =>
    unfold members? at hx
    rw [member?_of_member h hcomma] at hx
    cases hm : members? fuel t with
    | none => simp [hm] at hx
    | some y => exact ⟨fuel, y, hm⟩

theorem member?_of_members? {fuel : Nat} {x : Members × List UInt8} (hx : members? fuel s = some x) :
    ∃ y, member? s = some y := by
  cases fuel with
  | zero => cases hx
  | succ fuel =>
    unfold members? at hx
    cases hm : member? s with
    | none => simp [hm] at hx
    | some y => exact ⟨y, rfl⟩

theorem members?_of_object? (h : object? (123 :: 34 :: s) = some m) : ∃ k x, members? k (34 :: s) = some x := by
  have hat : objectAt? (123 :: 34 :: s) = members? (34 :: s).length (34 :: s) := rfl
  unfold object? at h
  rw [hat] at h
  cases hx : members? (34 :: s).length (34 :: s) with
  | none =>
    rw [hx] at h
    cases h
  | some x => exact ⟨_, x, hx⟩

/-- The string of a member that has been read. -/
theorem chars?_of_member? {key : List UInt8} {y : (List UInt8 × Value) × List UInt8}
    (hk : ∀ c ∈ key, 32 ≤ c ∧ c ≠ 34 ∧ c ≠ 92) (h : member? (32 :: 34 :: (key ++ 34 :: 58 :: 34 :: s)) = some y) :
    ∃ x, chars? s = some x := by
  have hskip : skip (32 :: 34 :: (key ++ 34 :: 58 :: 34 :: s)) = 34 :: (key ++ 34 :: 58 :: 34 :: s) := rfl
  have hkey := chars?_of_chars (chars_self hk) (58 :: 34 :: s)
  have hcolon : expect 58 (skip (58 :: 34 :: s)) = some (34 :: s) := rfl
  have hvalue : value? (34 :: s) = (chars? s).map fun p => (.str p.1, p.2) := rfl
  unfold member? at h
  rw [hskip] at h
  cases hs : chars? s with
  | none => simp [hkey, hcolon, hvalue, hs] at h
  | some x => exact ⟨x, rfl⟩

end Json
