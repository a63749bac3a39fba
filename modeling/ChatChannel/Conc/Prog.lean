import Mathlib.Logic.Function.Basic

/-!
# Programs over atomic calls, with exceptions

A thread of a concurrent program is modelled by the tree of the calls it makes: `Prog S α` is a
finite computation that either returns, raises, or performs one atomic call of the signature
`S` and goes on with the answer. The calls stay uninterpreted here; `Conc/System.lean` runs
several programs against one shared state, one call at a time, and `Conc/Path.lean` reads a
single program as the set of its call sequences.

`Prog S` is a monad with exceptions, so a translated function is written with `do`, `throw` and
`try`/`catch`. Loops are structural: `forEach` over a list, `firstSome` for a search that
returns early.
-/

set_option autoImplicit false

namespace Conc

/-- A signature: the atomic calls, the type of the answer to each, and the exceptions. -/
structure Sig where
  Act : Type
  Res : Act → Type
  Err : Type

/-- A finite computation over the calls of `S`. -/
inductive Prog (S : Sig) (α : Type) : Type
  | ret (a : α)
  | raise (e : S.Err)
  | act (a : S.Act) (k : S.Res a → Prog S α)

namespace Prog

variable {S : Sig} {α β γ : Type}

def bind : Prog S α → (α → Prog S β) → Prog S β
  | ret a, f => f a
  | raise e, _ => raise e
  | act a k, f => act a fun r => bind (k r) f

/-- Run `h` on the exception of a computation that raises. Calls made before stay made. -/
def handle : Prog S α → (S.Err → Prog S α) → Prog S α
  | ret a, _ => ret a
  | raise e, h => h e
  | act a k, h => act a fun r => handle (k r) h

instance : Monad (Prog S) where
  pure := ret
  bind := bind

instance : MonadExceptOf S.Err (Prog S) where
  throw := raise
  tryCatch := handle

/-- One call. -/
def perform (a : S.Act) : Prog S (S.Res a) := act a ret

/-- The range-for of the source: `f` on each element in turn, until one raises. -/
def forEach (f : α → Prog S Unit) : List α → Prog S Unit
  | [] => ret ()
  | x :: xs => bind (f x) fun _ => forEach f xs

/-- A search loop: the first answer `f` gives, `none` when every element was passed over. -/
def firstSome (f : α → Prog S (Option β)) : List α → Prog S (Option β)
  | [] => ret none
  | x :: xs => bind (f x) fun o =>
      match o with
      | some b => ret (some b)
      | none => firstSome f xs

/-! ## The monad's operations, unfolded -/

theorem pure_eq (a : α) : (pure a : Prog S α) = ret a := rfl

theorem bind_eq (p : Prog S α) (f : α → Prog S β) : p >>= f = bind p f := rfl

theorem throw_eq (e : S.Err) : (throw e : Prog S α) = raise e := rfl

theorem tryCatch_eq (p : Prog S α) (h : S.Err → Prog S α) :
    tryCatch p h = handle p h := rfl

@[simp] theorem bind_ret (a : α) (f : α → Prog S β) : bind (ret a) f = f a := rfl

@[simp] theorem bind_raise (e : S.Err) (f : α → Prog S β) : bind (raise e) f = raise e := rfl

@[simp] theorem bind_act (a : S.Act) (k : S.Res a → Prog S α) (f : α → Prog S β) :
    bind (act a k) f = act a fun r => bind (k r) f := rfl

@[simp] theorem bind_perform (a : S.Act) (f : S.Res a → Prog S β) :
    bind (perform a) f = act a f := rfl

/-! ## Every call satisfies a predicate -/

/-- Each call the computation can make satisfies `H`, whatever the answers are. -/
def All (H : S.Act → Prop) : Prog S α → Prop
  | ret _ => True
  | raise _ => True
  | act a k => H a ∧ ∀ r, All H (k r)

variable {H : S.Act → Prop}

theorem All.bind {p : Prog S α} {f : α → Prog S β} (hp : All H p) (hf : ∀ a, All H (f a)) :
    All H (bind p f) := by
  induction p with
  | ret a => exact hf a
  | raise e => trivial
  | act a k ih => exact ⟨hp.1, fun r => ih r (hp.2 r)⟩

theorem All.handle {p : Prog S α} {h : S.Err → Prog S α} (hp : All H p)
    (hh : ∀ e, All H (h e)) : All H (handle p h) := by
  induction p with
  | ret a => trivial
  | raise e => exact hh e
  | act a k ih => exact ⟨hp.1, fun r => ih r (hp.2 r)⟩

theorem All.perform {a : S.Act} (ha : H a) : All H (perform (S := S) a) :=
  ⟨ha, fun _ => trivial⟩

theorem All.forEach {f : α → Prog S Unit} (hf : ∀ x, All H (f x)) :
    ∀ xs : List α, All H (forEach f xs)
  | [] => trivial
  | x :: xs => All.bind (hf x) fun _ => All.forEach hf xs

theorem All.forEach_mem {f : α → Prog S Unit} :
    ∀ {xs : List α}, (∀ x ∈ xs, All H (f x)) → All H (Prog.forEach f xs)
  | [], _ => trivial
  | x :: _, hf => All.bind (hf x List.mem_cons_self) fun _ => All.forEach_mem fun y hy => hf y (List.mem_cons_of_mem x hy)

theorem All.firstSome {f : α → Prog S (Option β)} (hf : ∀ x, All H (f x)) :
    ∀ xs : List α, All H (firstSome f xs)
  | [] => trivial
  | x :: xs => All.bind (hf x) fun o => by
      cases o with
      | none => exact All.firstSome hf xs
      | some b => trivial

theorem All.mono {H' : S.Act → Prop} (h : ∀ a, H a → H' a) {p : Prog S α} (hp : All H p) :
    All H' p := by
  induction p with
  | ret a => trivial
  | raise e => trivial
  | act a k ih => exact ⟨h a hp.1, fun r => ih r (hp.2 r)⟩

end Prog

end Conc
