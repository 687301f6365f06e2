import AgentTransport.Identity.DidCanonical

/-! When base58 is lossless. A leading zero byte is a `1` of its own, in front of the digits of the
    number. But the number zero still has a digit, which reads as one more leading `1`, and the
    decoder adds its byte once more:

        00 … 00 (n bytes)  ─▶  1 … 1 (n + 1)  ─▶  00 … 00 (n + 2 bytes)

    With a significant byte the number is not zero, and its highest digit is no `1`. -/

namespace ATP
open Radix

/-- Bytes without a significant one are zeros. -/
theorem eq_zeros {bytes : List UInt8} (h : ¬ ∃ b ∈ bytes, b ≠ 0) :
    bytes = List.replicate bytes.length 0 := by
  refine List.eq_replicate_of_mem fun b hb => ?_
  by_contra hne
  exact h ⟨b, hb, hne⟩

/-- Zeros come back as two more. -/
theorem base58_zeros (n : ℕ) :
    base58Encode (List.replicate (n + 1) 0) = some (List.replicate (n + 2) '1') ∧
      base58Decode (List.replicate (n + 2) '1') = some (.ok (List.replicate (n + 3) 0)) := by
  have hnumber : bytesNumber (List.replicate (n + 1) 0) = 0 := by
    have h := bytesNumber_zeros (n + 1) []
    rwa [List.append_nil] at h
  have hdigits : (numeral 58 0).reverse.map base58Char = ['1'] := by decide
  have hbytes : numberBytes 0 = [0] := by decide
  have hvalue : Nat.ofDigits 58 (List.replicate (n + 2) 0).reverse = 0 := by
    have h := Nat.ofDigits_append_replicate_zero (b := 58) (k := n + 2) []
    rwa [List.nil_append, ← List.reverse_replicate] at h
  constructor
  · rw [base58Encode_eq (by simp), hnumber, hdigits, List.takeWhile_replicate, if_pos (by simp),
      List.length_replicate, ← List.replicate_succ']
  · rw [base58Decode_ok (by simp) (reads_ones (n + 2)), hvalue, hbytes, List.takeWhile_replicate,
      if_pos (by simp), List.length_replicate, ← List.replicate_succ']

/-- Decoding undoes encoding exactly for the empty string and for strings with a significant
    byte. -/
theorem base58_lossless_iff (bytes : List UInt8) :
    (base58Encode bytes).bind base58Decode = some (.ok bytes) ↔
      bytes = [] ∨ ∃ b ∈ bytes, b ≠ 0 := by
  constructor
  · intro h
    by_contra hnot
    obtain ⟨hne, hzero⟩ := not_or.mp hnot
    obtain ⟨n, hn⟩ := Nat.exists_eq_succ_of_ne_zero (mt List.length_eq_zero_iff.mp hne)
    obtain ⟨hencode, hdecode⟩ := base58_zeros n
    rw [eq_zeros hzero, hn, hencode, Option.bind_some, hdecode] at h
    have hlen := congrArg List.length (Except.ok.inj (Option.some.inj h))
    simp at hlen
  · rintro (rfl | h)
    · rfl
    · obtain ⟨text, hencode, hdecode⟩ := base58_roundtrip h
      rw [hencode, Option.bind_some, hdecode]

/-- One zero byte comes back as three. -/
theorem base58_zero_lost :
    (base58Encode [0]).bind base58Decode ≠ some (.ok [0]) := by
  decide +kernel

end ATP
