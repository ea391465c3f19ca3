import AwgProxy.Lib.Bytes

/-!
# The Padding Generator

The xorshift generator of `fastrand.c` and the paddings `transform.c` draws from it: a
seed is mixed, becomes the generator's state, and the generator fills the padding eight
bytes at a time. What the transforms need of a padding is that it has the length asked for
(`length_fillPadding`).
-/

namespace AwgProxy

/-- `fastrand_init`: the state of a seed; zero is no state of the generator. -/
def fastrandInit (seed : UInt64) : UInt64 :=
  if seed = 0 then 1 else seed

/-- `fastrand_u64`: the next state, which is also the value drawn. -/
def fastrandU64 (s : UInt64) : UInt64 :=
  let s := s ^^^ (s <<< 13)
  let s := s ^^^ (s >>> 7)
  s ^^^ (s <<< 17)

/-- The loop of `fastrand_fill` over `blocks` whole blocks of eight bytes. -/
def fastrandFillLoop : ℕ → UInt64 → Bytes × UInt64
  | 0, s => ([], s)
  | blocks + 1, s =>
      let v := fastrandU64 s
      let (b, s) := fastrandFillLoop blocks v
      (Bytes.leBytes 8 v.toNat ++ b, s)

/-- `fastrand_fill`: `len` bytes and the state after them. -/
def fastrandFill (s : UInt64) (len : ℕ) : Bytes × UInt64 :=
  let (b, s) := fastrandFillLoop (len / 8) s
  if len % 8 = 0 then (b, s)
  else
    let v := fastrandU64 s
    (b ++ (Bytes.leBytes 8 v.toNat).take (len % 8), v)

/-- `mix64`. -/
def mix64 (x : UInt64) : UInt64 :=
  let x := x + 0x9E3779B97F4A7C15
  let x := (x ^^^ (x >>> 30)) * 0xBF58476D1CE4E5B9
  let x := (x ^^^ (x >>> 27)) * 0x94D049BB133111EB
  x ^^^ (x >>> 31)

/-- `fill_padding`: the bytes it writes. -/
def fillPadding (len : ℕ) (seed : UInt64) : Bytes :=
  (fastrandFill (fastrandInit (mix64 seed)) len).1

@[simp] theorem length_fastrandFillLoop (blocks : ℕ) (s : UInt64) :
    (fastrandFillLoop blocks s).1.length = 8 * blocks := by
  induction blocks generalizing s with
  | zero => rfl
  | succ blocks ih =>
      simp only [fastrandFillLoop, List.length_append, Bytes.length_leBytes, ih]
      omega

@[simp] theorem length_fastrandFill (s : UInt64) (len : ℕ) :
    (fastrandFill s len).1.length = len := by
  simp only [fastrandFill]
  split
  · simp only [length_fastrandFillLoop]
    omega
  · simp only [List.length_append, List.length_take, Bytes.length_leBytes,
      length_fastrandFillLoop]
    omega

/-- A padding has the length asked for. -/
@[simp] theorem length_fillPadding (len : ℕ) (seed : UInt64) :
    (fillPadding len seed).length = len :=
  length_fastrandFill _ _

end AwgProxy
