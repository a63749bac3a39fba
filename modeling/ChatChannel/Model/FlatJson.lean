import ChatChannel.Model.Types

/-!
# A JSON library for flat objects

The part of JSON the clients use: objects whose members are strings without escapes and integers.
Concrete runs are evaluated with this library; on such texts it answers as Jansson does.
-/

set_option autoImplicit false

namespace ChatChannel.FlatJson

abbrev Members := List (Bytes × PackVal)

def space (c : UInt8) : Bool := c == 32 || c == 9 || c == 10 || c == 13

def skip (s : Bytes) : Bytes := s.dropWhile space

/-- A string, its quotes included. -/
def string? : Bytes → Option (Bytes × Bytes)
  | 34 :: s =>
    let text := s.takeWhile fun c => c ≠ 34 ∧ c ≠ 92
    match s.drop text.length with
    | 34 :: rest => some (text, rest)
    | _ => none
  | _ => none

def digit? (c : UInt8) : Option Nat := if 48 ≤ c ∧ c ≤ 57 then some (c.toNat - 48) else none

def nat? (s : Bytes) : Option (Nat × Bytes) :=
  let ds := s.takeWhile fun c => (digit? c).isSome
  if ds = [] then none
  else some ((ds.filterMap digit?).foldl (fun acc d => 10 * acc + d) 0, s.drop ds.length)

def value? : Bytes → Option (PackVal × Bytes)
  | 34 :: s => (string? (34 :: s)).map fun p => (.str p.1, p.2)
  | 45 :: s => (nat? s).map fun p => (.int (-p.1), p.2)
  | s => (nat? s).map fun p => (.int p.1, p.2)

def member? (s : Bytes) : Option ((Bytes × PackVal) × Bytes) := do
  let (key, s) ← string? (skip s)
  match skip s with
  | 58 :: s =>
    let (v, s) ← value? (skip s)
    pure ((key, v), skip s)
  | _ => none

/-- Members up to the closing brace, with fuel for as many as there are bytes. -/
def members? : Nat → Bytes → Option Members
  | 0, _ => none
  | fuel + 1, s => do
    let (m, s) ← member? s
    match s with
    | 44 :: s => (members? fuel s).map (m :: ·)
    | 125 :: s => if skip s = [] then pure [m] else none
    | _ => none

/-- `json_loads`: an object. -/
def loads (s : Bytes) : Option Members :=
  match skip s with
  | 123 :: s => if skip s = [125] then some [] else members? s.length s
  | _ => none

/-- The value of a member; of two with one key the later one counts. -/
def lookup (m : Members) (key : Bytes) : Option PackVal :=
  (m.reverse.find? fun p => p.1 = key).map Prod.snd

def digits (n : Nat) : Bytes := (Nat.toDigits 10 n).map fun c => c.toNat.toUInt8

def dumpValue : PackVal → Bytes
  | .str b => 34 :: b ++ [34]
  | .int (.ofNat n) => digits n
  | .int (.negSucc n) => 45 :: digits (n + 1)

def dumpMember (p : Bytes × PackVal) : Bytes := 34 :: p.1 ++ ascii "\": " ++ dumpValue p.2

def dumpObject (m : Members) : Bytes :=
  123 :: (ascii ", ").intercalate (m.map dumpMember) ++ [125]

/-- The library. -/
def js : Jansson where
  Json := Members
  loads := loads
  str m key := match lookup m key with
    | some (.str b) => some b
    | _ => none
  int m key := match lookup m key with
    | some (.int i) => some i
    | _ => none
  pack m := some m
  dumpArray l := some (91 :: (ascii ", ").intercalate (l.map dumpObject) ++ [93])

end ChatChannel.FlatJson
