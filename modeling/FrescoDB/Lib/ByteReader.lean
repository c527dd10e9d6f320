import FrescoDB.Lib.BigEndian
import FrescoDB.Lib.ExceptStep

/-! Readers of a byte string from its front, the way a decoder that holds a cursor into its input
reads it: a read takes bytes off the front and leaves the rest, and fails with the error it is given
when too few are left. A reader is a state over the bytes still to read that fails in `Except`.
Each read takes back what its writer put in front of any rest; the lemmas below say so for the reads
that decoders compose, so that the round trip of a composite format is a chain of their names. -/
namespace FrescoDB.Lib

/-- A reader: from the bytes still to read, the value read and the bytes after it. -/
abbrev ByteReader (ε α : Type) := StateT (List UInt8) (Except ε) α

namespace ByteReader

variable {ε α β : Type}

/-- The next `n` bytes, or `err` when fewer are left. -/
def takeBytes (err : ε) (n : Nat) : ByteReader ε (List UInt8) := fun bytes =>
  if bytes.length < n then .error err else .ok (bytes.take n, bytes.drop n)

/-- A number of `w` bytes, the most significant first. -/
def readBE (err : ε) (w : Nat) : ByteReader ε Nat := do
  let bytes ← takeBytes err w
  pure (ofBytesBE bytes)

/-- `p` read `count` times, the values in the order read. -/
def readMany (p : ByteReader ε α) : Nat → ByteReader ε (List α)
  | 0 => pure []
  | count + 1 => do
    let a ← p
    let as ← readMany p count
    pure (a :: as)

/-! ### Reading back what was written -/

@[simp] theorem run_pure (a : α) (bytes : List UInt8) :
    (pure a : ByteReader ε α).run bytes = .ok (a, bytes) := rfl

@[simp] theorem run_get (bytes : List UInt8) :
    (get : ByteReader ε (List UInt8)).run bytes = .ok (bytes, bytes) := rfl

theorem run_bind_of_ok {x : ByteReader ε α} {f : α → ByteReader ε β} {bytes rest : List UInt8}
    {a : α} (hx : x.run bytes = .ok (a, rest)) : (x >>= f).run bytes = (f a).run rest := by
  simp only [StateT.run_bind, hx, except_ok_bind]

theorem run_map_of_ok {x : ByteReader ε α} {f : α → β} {bytes rest : List UInt8} {a : α}
    (hx : x.run bytes = .ok (a, rest)) : (f <$> x).run bytes = .ok (f a, rest) := by
  simp only [StateT.run_map, hx]
  rfl

@[simp] theorem takeBytes_append (err : ε) (bytes rest : List UInt8) :
    (takeBytes err bytes.length).run (bytes ++ rest) = .ok (bytes, rest) := by
  simp [takeBytes, StateT.run]

theorem takeBytes_append_of_length {err : ε} {n : Nat} {bytes : List UInt8} (rest : List UInt8)
    (h : bytes.length = n) : (takeBytes err n).run (bytes ++ rest) = .ok (bytes, rest) := by
  subst h
  exact takeBytes_append err bytes rest

theorem readBE_toBytesBE (err : ε) (w v : Nat) (rest : List UInt8) :
    (readBE err w).run (toBytesBE w v ++ rest) = .ok (v % 256 ^ w, rest) := by
  have htake : (takeBytes err w).run (toBytesBE w v ++ rest) = .ok (toBytesBE w v, rest) :=
    takeBytes_append_of_length rest (length_toBytesBE w v)
  simp only [readBE, run_bind_of_ok htake, run_pure, ofBytesBE_toBytesBE]

theorem readBE_toBytesBE_of_lt {err : ε} {w v : Nat} (rest : List UInt8) (h : v < 256 ^ w) :
    (readBE err w).run (toBytesBE w v ++ rest) = .ok (v, rest) := by
  rw [readBE_toBytesBE, Nat.mod_eq_of_lt h]

theorem run_ite_append {c : Prop} [Decidable c] {x : ByteReader ε α} {a a₀ : α}
    {bytes : List UInt8} (hx : c → ∀ rest, x.run (bytes ++ rest) = .ok (a, rest))
    (rest : List UInt8) :
    (if c then x else pure a₀).run ((if c then bytes else []) ++ rest) =
      .ok (if c then a else a₀, rest) := by
  by_cases hc : c
  · simp only [if_pos hc]
    exact hx hc rest
  · simp only [if_neg hc, List.nil_append, run_pure]

/-- Reading `p` once for each value of a list written one after the other reads back what `p`
reads of each. -/
theorem readMany_flatMap (p : ByteReader ε β) (write : α → List UInt8) (read : α → β)
    (as : List α) (hround : ∀ a ∈ as, ∀ rest, p.run (write a ++ rest) = .ok (read a, rest))
    (rest : List UInt8) :
    (readMany p as.length).run (as.flatMap write ++ rest) = .ok (as.map read, rest) := by
  induction as with
  | nil => rfl
  | cons a as ih =>
    have hhead := hround a List.mem_cons_self (as.flatMap write ++ rest)
    have htail := ih fun b hb => hround b (List.mem_cons_of_mem a hb)
    simp only [readMany, List.length_cons, List.flatMap_cons, List.append_assoc,
      run_bind_of_ok hhead, run_bind_of_ok htail, run_pure, List.map_cons]

end ByteReader

end FrescoDB.Lib
