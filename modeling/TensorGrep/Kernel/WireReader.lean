import TensorGrep.Kernel.Outcome
import TensorGrep.Kernel.Utf8Text

/-!
# Reading a wire format

A reader consumes a prefix of a byte string.  It returns a value and the rest,
fails with an error, or panics; keeping the third outcome apart lets a proof
say that hostile input never reaches it.

Two judgements carry every proof about a reader.  `Decodes r bs a` is the
round trip: in front of any rest, `r` consumes exactly `bs` and returns `a`.
`Sound r P` is safety on arbitrary input: `r` never panics and whatever it
returns satisfies `P`.  Both are closed under sequencing and counted loops.
-/

namespace TensorGrep
namespace Kernel

universe u v

/-- A reader of a byte string. -/
def Reader (ε : Type u) (α : Type v) :=
  Bytes → Outcome ε (α × Bytes)

namespace Reader

variable {ε : Type u} {α : Type v} {β : Type v}

/-- Return a value and consume nothing. -/
def succeed (a : α) : Reader ε α :=
  fun data => .ok (a, data)

/-- Fail with an error. -/
def fail (e : ε) : Reader ε α :=
  fun _ => .error e

/-- Panic. -/
def crash : Reader ε α :=
  fun _ => .panicked

/-- Run `r`, then `f` on its result and the rest. -/
def andThen
    (r : Reader ε α)
    (f : α → Reader ε β) : Reader ε β :=
  fun data =>
    match r data with
    | .ok (a, rest) => f a rest
    | .error e => .error e
    | .panicked => .panicked

instance : Monad (Reader ε) where
  pure := succeed
  bind := andThen

/-- Continue only when the test holds. -/
def check
    (c : Bool)
    (e : ε) : Reader ε PUnit :=
  if c then succeed ⟨⟩ else fail e

/-- Lift an option. -/
def ofOption
    (o : Option α)
    (e : ε) : Reader ε α :=
  match o with
  | some a => succeed a
  | none => fail e

/-- Lift a fallible computation. -/
def ofExcept
    (x : Except ε α) : Reader ε α :=
  match x with
  | .ok a => succeed a
  | .error e => fail e

/-- Consume `n` bytes. -/
def readExact
    (e : ε)
    (n : Nat) : Reader ε Bytes :=
  fun data =>
    if n ≤ data.length then .ok (data.take n, data.drop n) else .error e

/-- Reserve room for `count` elements; more than `isize::MAX` bytes panics. -/
def reserve
    (count elemBytes : Nat) : Reader ε PUnit :=
  fun data =>
    if min count data.length * elemBytes < 2 ^ 63 then .ok (⟨⟩, data) else .panicked

/-- Index a slice at zero; an empty slice panics. -/
def firstByte (bs : Bytes) : Reader ε UInt8 :=
  fun data =>
    match bs with
    | [] => .panicked
    | b :: _ => .ok (b, data)

/-- Run a state-passing body `n` times. -/
def loop
    {σ : Type v}
    (body : σ → Reader ε σ) : Nat → σ → Reader ε σ
  | 0, s => succeed s
  | n + 1, s => andThen (body s) (loop body n)

/-- In front of any rest, `r` consumes exactly `bs` and returns `a`. -/
def Decodes
    (r : Reader ε α)
    (bs : Bytes)
    (a : α) : Prop :=
  ∀ rest, r (bs ++ rest) = .ok (a, rest)

/-- `r` never panics, and what it returns satisfies `P`. -/
def Sound
    (r : Reader ε α)
    (P : α → Prop) : Prop :=
  ∀ data,
    match r data with
    | .ok (a, _) => P a
    | .error _ => True
    | .panicked => False

@[simp] theorem pure_eq
    (a : α) :
    (pure a : Reader ε α) = succeed a := rfl

@[simp] theorem bind_eq
    (r : Reader ε α)
    (f : α → Reader ε β) :
    (r >>= f) = andThen r f := rfl

/-- A reservation bounded by a 32-bit count stays below the address space. -/
theorem reserve_bound
    {count elemBytes n : Nat}
    (hcount : count < 2 ^ 32)
    (helem : elemBytes ≤ 2 ^ 31) :
    min count n * elemBytes < 2 ^ 63 := by
  calc
    min count n * elemBytes ≤ (2 ^ 32 - 1) * 2 ^ 31 :=
      Nat.mul_le_mul (by omega) helem
    _ < 2 ^ 63 := by norm_num

/-! ## Round trips -/

theorem decodes_succeed
    (a : α) :
    Decodes (succeed a : Reader ε α) [] a :=
  fun _ => rfl

theorem decodes_andThen
    {r : Reader ε α}
    {f : α → Reader ε β}
    {bs₁ bs₂ : Bytes}
    {a : α}
    {b : β}
    (hr : Decodes r bs₁ a)
    (hf : Decodes (f a) bs₂ b) :
    Decodes (andThen r f) (bs₁ ++ bs₂) b := by
  intro rest
  unfold andThen
  rw [List.append_assoc, hr]
  exact hf rest

theorem decodes_readExact
    (e : ε)
    (bs : Bytes) :
    Decodes (readExact e bs.length) bs bs := by
  intro rest
  unfold readExact
  simp

theorem decodes_check
    {c : Bool}
    (e : ε)
    (h : c = true) :
    Decodes (check c e) [] ⟨⟩ := by
  intro rest
  simp [check, h, succeed]

theorem decodes_ofOption
    {o : Option α}
    {a : α}
    (e : ε)
    (h : o = some a) :
    Decodes (ofOption o e) [] a := by
  intro rest
  simp [ofOption, h, succeed]

theorem decodes_ofExcept
    {x : Except ε α}
    {a : α}
    (h : x = .ok a) :
    Decodes (ofExcept x) [] a := by
  intro rest
  simp [ofExcept, h, succeed]

theorem decodes_reserve
    {count elemBytes : Nat}
    (hcount : count < 2 ^ 32)
    (helem : elemBytes ≤ 2 ^ 31) :
    Decodes (reserve count elemBytes : Reader ε PUnit) [] ⟨⟩ := by
  intro rest
  unfold reserve
  rw [List.nil_append, if_pos (reserve_bound hcount helem)]

theorem decodes_loop_zero
    {σ : Type v}
    (body : σ → Reader ε σ)
    (s : σ) :
    Decodes (loop body 0 s) [] s :=
  fun _ => rfl

/-- One more round of a loop. -/
theorem decodes_loop_succ
    {σ : Type v}
    {body : σ → Reader ε σ}
    {n : Nat}
    {s s' s'' : σ}
    {bs bs' : Bytes}
    (hbody : Decodes (body s) bs s')
    (hrest : Decodes (loop body n s') bs' s'') :
    Decodes (loop body (n + 1) s) (bs ++ bs') s'' :=
  decodes_andThen hbody hrest

/-! ## Safety -/

theorem sound_succeed
    {P : α → Prop}
    {a : α}
    (h : P a) :
    Sound (succeed a : Reader ε α) P :=
  fun _ => h

theorem sound_fail
    {P : α → Prop}
    (e : ε) :
    Sound (fail e) P :=
  fun _ => trivial

theorem sound_andThen
    {r : Reader ε α}
    {f : α → Reader ε β}
    {P : α → Prop}
    {Q : β → Prop}
    (hr : Sound r P)
    (hf : ∀ a, P a → Sound (f a) Q) :
    Sound (andThen r f) Q := by
  intro data
  have hdata := hr data
  unfold andThen
  cases hres : r data with
  | ok p =>
      obtain ⟨a, rest⟩ := p
      rw [hres] at hdata
      exact hf a hdata rest
  | error e => trivial
  | panicked =>
      rw [hres] at hdata
      exact hdata

theorem sound_readExact
    (e : ε)
    (n : Nat) :
    Sound (readExact e n) (fun bs => bs.length = n) := by
  intro data
  unfold readExact
  by_cases h : n ≤ data.length
  · simp [h]
  · simp [h]

theorem sound_check
    {c : Bool}
    (e : ε) :
    Sound (check c e) (fun _ => c = true) := by
  unfold check
  split_ifs with h
  · exact sound_succeed h
  · exact sound_fail e

theorem sound_ofOption
    {o : Option α}
    (e : ε) :
    Sound (ofOption o e) (fun a => o = some a) := by
  cases o with
  | none => exact sound_fail e
  | some a => exact sound_succeed rfl

theorem sound_ofExcept
    (x : Except ε α) :
    Sound (ofExcept x) (fun a => x = .ok a) := by
  cases x with
  | error e => exact sound_fail e
  | ok a => exact sound_succeed rfl

theorem sound_reserve
    {count elemBytes : Nat}
    (hcount : count < 2 ^ 32)
    (helem : elemBytes ≤ 2 ^ 31) :
    Sound (reserve count elemBytes : Reader ε PUnit) (fun _ => True) := by
  intro data
  unfold reserve
  rw [if_pos (reserve_bound hcount helem)]
  trivial

theorem sound_firstByte
    {bs : Bytes}
    (h : bs.length = 1) :
    Sound (firstByte bs : Reader ε UInt8) (fun _ => True) := by
  match bs, h with
  | [_], _ => exact fun _ => trivial

/-- A loop keeps the invariant, indexed by the round, that its body keeps. -/
theorem sound_loop
    {σ : Type v}
    {body : σ → Reader ε σ}
    {Inv : Nat → σ → Prop}
    (hbody : ∀ k s, Inv k s → Sound (body s) (Inv (k + 1)))
    (n : Nat)
    {k : Nat}
    {s : σ}
    (hs : Inv k s) :
    Sound (loop body n s) (Inv (k + n)) := by
  induction n generalizing k s with
  | zero => exact sound_succeed hs
  | succ n ih =>
      refine sound_andThen (hbody k s hs) (fun s' hs' => ?_)
      have hrest := ih hs'
      rwa [Nat.add_right_comm] at hrest

end Reader

/-! ## Little-endian numbers -/

/-- The `k` low bytes of a number, least significant first. -/
def leBytes : Nat → Nat → Bytes
  | 0, _ => []
  | k + 1, v => UInt8.ofNat v :: leBytes k (v / 256)

/-- The number denoted by bytes, least significant first. -/
def fromLe : Bytes → Nat
  | [] => 0
  | b :: bs => b.toNat + 256 * fromLe bs

@[simp] theorem length_leBytes
    (k v : Nat) :
    (leBytes k v).length = k := by
  induction k generalizing v with
  | zero => rfl
  | succ k ih => simp [leBytes, ih]

theorem fromLe_leBytes
    (k v : Nat) :
    fromLe (leBytes k v) = v % 256 ^ k := by
  induction k generalizing v with
  | zero => simp [leBytes, fromLe, Nat.mod_one]
  | succ k ih =>
      have hb : (UInt8.ofNat v).toNat = v % 256 := by simp
      rw [leBytes, fromLe, ih, hb, Nat.pow_succ, Nat.mul_comm (256 ^ k) 256, Nat.mod_mul]

end Kernel
end TensorGrep
