import Mathlib.Data.List.TakeWhile
import ChatChannel.Model.Channel
import ChatChannel.Model.Display
import ChatChannel.Model.FlatJson

/-!
# Payloads that crash the Windows client

`extract_json_int` hands whatever run of digits and minus signs it finds behind `"channel_id":` to
`std::stoi`, which raises when there is no number in it, or one that an `int` cannot hold. Nobody catches
the exception, so one such run in a payload is enough (`displays_iff`), and the servers write one for every
channel with an id from `2 ^ 31` on.
-/

set_option autoImplicit false

namespace ChatChannel.Client

/-! ## What the scanners look at -/

/-- `y` is what stands behind the first occurrence of `pat`. -/
def FirstBehind (pat s y : Bytes) : Prop :=
  ∃ x, s = x ++ pat ++ y ∧ ∀ x' y', s = x' ++ pat ++ y' → x.length ≤ x'.length

/-- The parts of an array that are taken for objects: from an opening brace to the next closing one, and
on from there. -/
inductive Cut : Bytes → Bytes → Prop
  | here {a b c : Bytes} : 123 ∉ a → 125 ∉ b → Cut (a ++ 123 :: (b ++ 125 :: c)) (123 :: (b ++ [125]))
  | later {a b c json : Bytes} : 123 ∉ a → 125 ∉ b → Cut c json → Cut (a ++ 123 :: (b ++ 125 :: c)) json

/-- The payload begins like an array, which goes on with `s`. -/
def ArrayOf (payload s : Bytes) : Prop := ∃ w, payload = w ++ 91 :: s ∧ ∀ c ∈ w, isSpace c = true

/-- What `parse_and_print` is called with. -/
def Piece (payload json : Bytes) : Prop :=
  (∃ s, ArrayOf payload s ∧ Cut s json) ∨ (¬ ∃ s, ArrayOf payload s) ∧ json = payload

/-- A digit or a minus sign. -/
def numeral (c : UInt8) : Bool := decimal c || c == 45

/-- The run of digits and minus signs behind `"channel_id":` and blanks, if there is one. -/
def NumberIn (json num : Bytes) : Prop :=
  ∃ w rest, FirstBehind (ascii "\"channel_id\":") json (w ++ num ++ rest) ∧ (∀ c ∈ w, c = 32 ∨ c = 9) ∧
    num ≠ [] ∧ (∀ c ∈ num, numeral c = true) ∧ ∀ c ∈ rest.head?, numeral c = false

/-- A sign or none, digits whose value a 32-bit integer can hold, and what may be behind them. -/
def Convertible (num : Bytes) : Prop :=
  ∃ ds tail, ds ≠ [] ∧ (∀ c ∈ ds, decimal c = true) ∧ (∀ c ∈ tail.head?, decimal c = false) ∧
    ((num = ds ++ tail ∧ digitsValue ds < 2 ^ 31) ∨ (num = 45 :: (ds ++ tail) ∧ digitsValue ds ≤ 2 ^ 31))

/-! ## Runs -/

section

variable {α : Type} {p : α → Bool}

/-- A list falls into a run of elements with `p` and what is behind it in one way. -/
theorem span_append {x y : List α} (hx : ∀ c ∈ x, p c = true) (hy : ∀ c ∈ y.head?, p c = false) :
    (x ++ y).takeWhile p = x ∧ (x ++ y).dropWhile p = y := by
  rw [List.takeWhile_append_of_pos hx, List.dropWhile_append_of_pos hx]
  cases y with
  | nil => simp
  | cons c y => simp [hy c rfl]

theorem span_spec (s : List α) :
    (∀ c ∈ s.takeWhile p, p c = true) ∧ ∀ c ∈ (s.dropWhile p).head?, p c = false := by
  constructor
  · exact fun c hc => List.mem_takeWhile_imp hc
  · intro c hc
    have := List.head?_dropWhile_not p s
    rw [Option.mem_def.mp hc] at this
    exact this

end

/-! ## Searching -/

section

variable {pat s y json num payload : Bytes}

theorem behind?_spec (hpat : pat ≠ []) : behind? pat s = some y ↔ FirstBehind pat s y := by
  induction s with
  | nil =>
    rw [behind?, if_neg hpat]
    refine ⟨fun h => (by cases h), ?_⟩
    rintro ⟨x, hs, -⟩
    simp [hpat] at hs
  | cons c s ih =>
    rw [behind?]
    split
    · rename_i hpre
      obtain ⟨z, hz⟩ := hpre
      rw [← hz, List.drop_left]
      constructor
      · intro h
        cases h
        exact ⟨[], rfl, fun _ _ _ => Nat.zero_le _⟩
      · rintro ⟨x, hx, hmin⟩
        have hx0 : x = [] := List.length_eq_zero_iff.mp (Nat.le_zero.mp (hmin [] z rfl))
        subst hx0
        rw [List.nil_append] at hx
        rw [List.append_cancel_left hx]
    · rename_i hpre
      rw [ih]
      constructor
      · rintro ⟨x, rfl, hmin⟩
        refine ⟨c :: x, rfl, fun x' y' hs => ?_⟩
        cases x' with
        | nil => exact absurd ⟨y', hs.symm⟩ hpre
        | cons d x' => exact Nat.succ_le_succ (hmin x' y' (List.cons.inj hs).2)
      · rintro ⟨x, hs, hmin⟩
        cases x with
        | nil => exact absurd ⟨y, hs.symm⟩ hpre
        | cons d x =>
          obtain ⟨rfl, rfl⟩ := List.cons.inj hs
          exact ⟨x, rfl, fun x' y' hs => Nat.le_of_succ_le_succ (hmin (c :: x') y' (congrArg _ hs))⟩

/-! ## Numbers -/

/-- What `stoi` does with the digits it has found. -/
theorem stoi_digits {negative : Prop} [Decidable negative] {ds : Bytes} :
    (if ds = [] ∨ (if negative then -(digitsValue ds : Int) else digitsValue ds) < -2 ^ 31 ∨
        2 ^ 31 ≤ (if negative then -(digitsValue ds : Int) else digitsValue ds) then none
      else some (if negative then -(digitsValue ds : Int) else digitsValue ds)).isSome = true ↔
      ds ≠ [] ∧ if negative then digitsValue ds ≤ 2 ^ 31 else digitsValue ds < 2 ^ 31 := by
  by_cases hds : ds = []
  · simp [hds]
  · by_cases hneg : negative
    · simp only [hds, hneg, if_true, false_or, ne_eq, not_false_eq_true, true_and]
      split
      · exact iff_of_false (by simp) (by omega)
      · exact iff_of_true rfl (by omega)
    · simp only [hds, hneg, if_false, false_or, ne_eq, not_false_eq_true, true_and]
      split
      · exact iff_of_false (by simp) (by omega)
      · exact iff_of_true rfl (by omega)

theorem stoi_isSome (s : Bytes) : (stoi s).isSome = true ↔ Convertible s := by
  rw [stoi, stoi_digits]
  constructor
  · rintro ⟨hne, hv⟩
    split at hne
    · rename_i hneg
      obtain ⟨rest, rfl⟩ : ∃ rest, s = 45 :: rest := List.head?_eq_some_iff.mp hneg
      rw [if_pos hneg, if_pos hneg] at hv
      exact ⟨rest.takeWhile decimal, rest.dropWhile decimal, hne, (span_spec rest).1, (span_spec rest).2,
        .inr ⟨by rw [List.takeWhile_append_dropWhile], hv⟩⟩
    · rename_i hpos
      rw [if_neg hpos, if_neg hpos] at hv
      exact ⟨s.takeWhile decimal, s.dropWhile decimal, hne, (span_spec s).1, (span_spec s).2,
        .inl ⟨List.takeWhile_append_dropWhile.symm, hv⟩⟩
  · rintro ⟨ds, tail, hne, hds, htail, ⟨rfl, hv⟩ | ⟨rfl, hv⟩⟩
    · have hpos : ¬ (ds ++ tail).head? = some 45 := by
        cases ds with
        | nil => exact absurd rfl hne
        | cons c ds =>
          intro hc
          cases hc
          exact absurd (hds 45 List.mem_cons_self) (by decide)
      rw [if_neg hpos, if_neg hpos, (span_append hds htail).1]
      exact ⟨hne, hv⟩
    · have hneg : (45 :: (ds ++ tail)).head? = some 45 := rfl
      rw [if_pos hneg, if_pos hneg, List.drop_one, List.tail_cons, (span_append hds htail).1]
      exact ⟨hne, hv⟩

/-- Blanks, and what is behind them. -/
def blank (c : UInt8) : Bool := c == 32 || c == 9

theorem blank_of_numeral {c : UInt8} (h : numeral c = true) : blank c = false := by
  unfold numeral decimal at h
  unfold blank
  grind

theorem extractJsonInt_isSome (json : Bytes) :
    (extractJsonInt json (ascii "channel_id")).isSome = true ↔ ∀ num, NumberIn json num → Convertible num := by
  unfold extractJsonInt member?
  cases hb : behind? (34 :: ascii "channel_id" ++ [34, 58]) json with
  | none =>
    refine iff_of_true rfl fun num hn => ?_
    obtain ⟨w, rest, hfirst, -⟩ := hn
    rw [← behind?_spec (by decide)] at hfirst
    exact absurd (hb.symm.trans hfirst) (by simp)
  | some y =>
    have hfirst := (behind?_spec (by decide)).mp hb
    -- the run that is converted is the only one there is
    have hrun : ∀ num, NumberIn json num → num ≠ [] ∧ (y.dropWhile blank).takeWhile numeral = num := by
      rintro num ⟨w, rest, hother, hw, hne, hnum, hrest⟩
      have hy : y = w ++ (num ++ rest) := by
        rw [← List.append_assoc]
        exact Option.some.inj (hb.symm.trans ((behind?_spec (by decide)).mpr hother))
      have hblank : ∀ c ∈ w, blank c = true := by simpa [blank] using hw
      have hstart : ∀ c ∈ (num ++ rest).head?, blank c = false := by
        cases num with
        | nil => exact absurd rfl hne
        | cons d num =>
          intro c hc
          cases hc
          exact blank_of_numeral (hnum d List.mem_cons_self)
      rw [hy, (span_append hblank hstart).2, (span_append hnum hrest).1]
      exact ⟨hne, rfl⟩
    dsimp only [Option.map_some]
    show (if (y.dropWhile blank).takeWhile numeral = [] then some 0
      else stoi ((y.dropWhile blank).takeWhile numeral)).isSome = true ↔ _
    split
    · rename_i hnil
      exact iff_of_true rfl fun num hn => absurd (hnil ▸ (hrun num hn).2.symm) (hrun num hn).1
    · rename_i hne
      rw [stoi_isSome]
      constructor
      · intro h num hn
        rwa [← (hrun num hn).2]
      · intro h
        refine h _ ⟨y.takeWhile blank, (y.dropWhile blank).dropWhile numeral, ?_, ?_, hne,
          (span_spec _).1, (span_spec _).2⟩
        · rwa [List.append_assoc, List.takeWhile_append_dropWhile, List.takeWhile_append_dropWhile]
        · intro c hc
          simpa [blank] using (span_spec y).1 c hc

/-! ## Pieces -/

/-- What is searched for is found, and the list splits there. -/
theorem first_occurrence {b : UInt8} {s : Bytes} (h : s.dropWhile (· ≠ b) ≠ []) :
    ∃ x y, s = x ++ b :: y ∧ b ∉ x := by
  refine List.eq_append_cons_of_mem ?_
  by_contra hb
  exact h (List.dropWhile_eq_nil_iff.mpr fun c hc => decide_eq_true (ne_of_mem_of_not_mem hc hb))

theorem span_byte {b : UInt8} {x : Bytes} (hx : b ∉ x) (y : Bytes) :
    (x ++ b :: y).takeWhile (· ≠ b) = x ∧ (x ++ b :: y).dropWhile (· ≠ b) = b :: y :=
  span_append (fun c hc => decide_eq_true (ne_of_mem_of_not_mem hc hx)) fun c hc => by
    cases hc
    exact decide_eq_false fun h => h rfl

theorem split_unique {b : UInt8} {x x' y y' : Bytes} (hx : b ∉ x) (hx' : b ∉ x')
    (h : x ++ b :: y = x' ++ b :: y') : x = x' ∧ y = y' := by
  have hfirst : x = x' := by rw [← (span_byte hx y).1, h, (span_byte hx' y').1]
  subst hfirst
  exact ⟨rfl, (List.cons.inj (List.append_cancel_left h)).2⟩

theorem cut_unique {a a' b b' c c' : Bytes} (ha : 123 ∉ a) (ha' : 123 ∉ a') (hb : 125 ∉ b) (hb' : 125 ∉ b')
    (h : a ++ 123 :: (b ++ 125 :: c) = a' ++ 123 :: (b' ++ 125 :: c')) : a = a' ∧ b = b' ∧ c = c' := by
  obtain ⟨rfl, hrest⟩ := split_unique ha ha' h
  exact ⟨rfl, split_unique hb hb' hrest⟩

/-- One round of the loop that takes an array apart. -/
theorem objects_cut {a b c : Bytes} (ha : 123 ∉ a) (hb : 125 ∉ b) (fuel : Nat) :
    objects (fuel + 1) (a ++ 123 :: (b ++ 125 :: c)) = (123 :: (b ++ [125])) :: objects fuel c := by
  have hb' : 125 ∉ 123 :: b := by simpa using hb
  have hspan := span_byte hb' c
  rw [List.cons_append] at hspan
  rw [objects, (span_byte ha _).2, hspan.2, hspan.1]
  rfl

/-- The last round. -/
theorem objects_nil {s : Bytes} (h : ∀ a b c, s = a ++ 123 :: (b ++ 125 :: c) → 123 ∈ a ∨ 125 ∈ b)
    (fuel : Nat) : objects fuel s = [] := by
  cases fuel with
  | zero => rfl
  | succ fuel =>
    rw [objects]
    split
    · rfl
    · rename_i close rest hclose
      exfalso
      obtain ⟨b, c, hbc, hb⟩ := first_occurrence (b := 125) (s := s.dropWhile (· ≠ 123))
        (by rw [hclose]; simp)
      obtain ⟨a, y, rfl, ha⟩ := first_occurrence (b := 123) (s := s) (by rw [hbc]; simp)
      rw [(span_byte ha y).2] at hbc
      cases b with
      | nil => cases hbc
      | cons d b =>
        obtain ⟨rfl, rfl⟩ := List.cons.inj hbc
        rcases h a b c rfl with h | h
        · exact ha h
        · exact hb (List.mem_cons_of_mem _ h)

theorem mem_objects : ∀ {fuel : Nat} {s : Bytes}, s.length ≤ fuel → (json ∈ objects fuel s ↔ Cut s json) := by
  intro fuel
  induction fuel with
  | zero =>
    intro s hs
    have hs : s = [] := List.length_eq_zero_iff.mp (Nat.le_zero.mp hs)
    subst hs
    refine iff_of_false (by simp [objects]) fun h => ?_
    generalize hz : ([] : Bytes) = z at h
    cases h <;> simp at hz
  | succ fuel ih =>
    intro s hs
    by_cases hcut : ∃ a b c, s = a ++ 123 :: (b ++ 125 :: c) ∧ 123 ∉ a ∧ 125 ∉ b
    · obtain ⟨a, b, c, rfl, ha, hb⟩ := hcut
      have hc : c.length ≤ fuel := by
        simp only [List.length_append, List.length_cons] at hs
        omega
      rw [objects_cut ha hb, List.mem_cons, ih hc]
      constructor
      · rintro (rfl | h)
        · exact .here ha hb
        · exact .later ha hb h
      · intro h
        generalize hs : a ++ 123 :: (b ++ 125 :: c) = s at h
        cases h with
        | here ha' hb' =>
          obtain ⟨-, rfl, -⟩ := cut_unique ha ha' hb hb' hs
          exact .inl rfl
        | later ha' hb' h =>
          obtain ⟨-, -, rfl⟩ := cut_unique ha ha' hb hb' hs
          exact .inr h
    · have hnone : ∀ a b c, s = a ++ 123 :: (b ++ 125 :: c) → 123 ∈ a ∨ 125 ∈ b := by
        intro a b c hs
        by_contra hno
        exact hcut ⟨a, b, c, hs, not_or.mp hno⟩
      rw [objects_nil hnone]
      refine iff_of_false (by simp) fun h => ?_
      cases h with
      | here ha hb => exact hcut ⟨_, _, _, rfl, ha, hb⟩
      | later ha hb => exact hcut ⟨_, _, _, rfl, ha, hb⟩

end

theorem mapM_isSome {α β : Type} {f : α → Option β} : ∀ {l : List α},
    (l.mapM f).isSome = true ↔ ∀ x ∈ l, (f x).isSome = true := by
  intro l
  induction l with
  | nil => simp
  | cons x l ih =>
    rw [List.mapM_cons]
    cases hx : f x <;> cases hl : l.mapM f <;> simp_all

theorem parseAndPrint_isSome (json : Bytes) :
    (parseAndPrint json).isSome = true ↔ ∀ num, NumberIn json num → Convertible num := by
  rw [parseAndPrint, Option.isSome_map, extractJsonInt_isSome]

theorem arrayOf_iff {payload s : Bytes} :
    ArrayOf payload s ↔ payload.dropWhile isSpace = 91 :: s := by
  constructor
  · rintro ⟨w, rfl, hw⟩
    exact (span_append hw fun c hc => by cases hc; decide).2
  · intro h
    exact ⟨payload.takeWhile isSpace, by rw [← h, List.takeWhile_append_dropWhile], (span_spec payload).1⟩

/-- **The client displays a payload** without an exception exactly if it can convert the first number of
every piece. -/
theorem displays_iff (payload : Bytes) : (displayMessage payload).isSome = true ↔
    ∀ json num, Piece payload json → NumberIn json num → Convertible num := by
  unfold displayMessage
  split
  · rename_i s hs
    have harray {s' : Bytes} (h : ArrayOf payload s') : s' = s := by
      rw [arrayOf_iff, hs] at h
      exact (List.cons.inj h).2.symm
    rw [mapM_isSome]
    constructor
    · intro h json num hpiece hnum
      rcases hpiece with ⟨s', harr, hcut⟩ | ⟨hno, -⟩
      · obtain rfl := harray harr
        exact (parseAndPrint_isSome json).mp (h json ((mem_objects le_rfl).mpr hcut)) num hnum
      · exact absurd ⟨s, arrayOf_iff.mpr hs⟩ hno
    · intro h json hjson
      rw [parseAndPrint_isSome]
      intro num hnum
      exact h json num (.inl ⟨s, arrayOf_iff.mpr hs, (mem_objects le_rfl).mp hjson⟩) hnum
  · rename_i hs
    have hno : ¬ ∃ s, ArrayOf payload s := by
      rintro ⟨s, harr⟩
      exact hs s (arrayOf_iff.mp harr)
    rw [Option.isSome_map, parseAndPrint_isSome]
    constructor
    · intro h json num hpiece hnum
      rcases hpiece with ⟨s, harr, -⟩ | ⟨-, rfl⟩
      · exact absurd ⟨s, harr⟩ hno
      · exact h num hnum
    · intro h num hnum
      exact h payload num (.inr ⟨hno, rfl⟩) hnum

/-- The window a channel with the greatest id writes when somebody joins. -/
def lastChannelWindow : Option Bytes :=
  FlatJson.js.dumpArray [windowEntry 1 (sysMsg 4294967295 (ascii "join") 1 (ascii "ann"))]

/-- It crashes the client. -/
theorem window_crashes : ∃ payload, lastChannelWindow = some payload ∧
    ¬ (displayMessage payload).isSome = true := by
  have hsome : lastChannelWindow.any (fun payload => (displayMessage payload).isNone) = true := by
    decide +kernel
  obtain ⟨payload, hp, hnone⟩ := (Option.any_eq_true _ _).mp hsome
  exact ⟨payload, hp, by simpa using hnone⟩

end ChatChannel.Client
