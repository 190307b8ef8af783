/-!
# FNV-1a, 64 bit

The hash of the Go package `hash/fnv`: each byte is xored into the state,
which is then multiplied by an odd prime.  Both halves of a round lose
nothing, so two words that differ in exactly one byte never collide.

## Main results

* `absorb_inj_state`, `absorb_inj_byte`: one round is injective in the state
  and in the byte.
* `sum64a_inj_byte`: equal hashes of words that differ at most in one byte
  come from equal bytes.
-/

namespace PipelineOperator.Lib.Fnv

def offset64 : UInt64 := 0xcbf29ce484222325

def prime64 : UInt64 := 0x100000001b3

/-- The inverse of `prime64` modulo `2 ^ 64`. -/
def primeInverse : UInt64 := 0xce965057aff6957b

/-- One round: xor the byte in, then multiply. -/
def absorb (h : UInt64) (b : UInt8) : UInt64 := (h ^^^ b.toUInt64) * prime64

/-- The hash of a word of bytes. -/
def sum64a (bytes : List UInt8) : UInt64 := bytes.foldl absorb offset64

private theorem prime_mul_inverse : prime64 * primeInverse = 1 := by decide

/-- Multiplying by the prime can be undone. -/
private theorem mul_prime_cancel {x y : UInt64} (h : x * prime64 = y * prime64) :
    x = y := by
  have hinv := congrArg (· * primeInverse) h
  simpa only [UInt64.mul_assoc, prime_mul_inverse, UInt64.mul_one] using hinv

private theorem xor_left_cancel {x y z : UInt64} (h : x ^^^ y = x ^^^ z) : y = z := by
  have hinv := congrArg (x ^^^ ·) h
  simpa only [← UInt64.xor_assoc, UInt64.xor_self, UInt64.zero_xor] using hinv

private theorem xor_right_cancel {x y z : UInt64} (h : y ^^^ x = z ^^^ x) : y = z := by
  rw [UInt64.xor_comm y, UInt64.xor_comm z] at h
  exact xor_left_cancel h

theorem absorb_inj_state {h h' : UInt64} {b : UInt8}
    (heq : absorb h b = absorb h' b) : h = h' :=
  xor_right_cancel (mul_prime_cancel heq)

theorem absorb_inj_byte {h : UInt64} {b b' : UInt8}
    (heq : absorb h b = absorb h b') : b = b' :=
  UInt8.toUInt64_inj.mp (xor_left_cancel (mul_prime_cancel heq))

/-- Absorbing a common tail keeps different states apart. -/
theorem foldl_absorb_inj (tail : List UInt8) {h h' : UInt64}
    (heq : tail.foldl absorb h = tail.foldl absorb h') : h = h' := by
  induction tail generalizing h h' with
  | nil => exact heq
  | cons b tail ih => exact absorb_inj_state (ih heq)

/-- Words that differ in one byte only have different hashes. -/
theorem sum64a_inj_byte {front tail : List UInt8} {b b' : UInt8}
    (heq : sum64a (front ++ b :: tail) = sum64a (front ++ b' :: tail)) : b = b' := by
  simp only [sum64a, List.foldl_append, List.foldl_cons] at heq
  exact absorb_inj_byte (foldl_absorb_inj tail heq)

end PipelineOperator.Lib.Fnv
