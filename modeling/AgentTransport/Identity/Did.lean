import AgentTransport.Lib.Collections
import AgentTransport.Lib.Radix
import Mathlib.Data.List.GetD

/-! Decentralized identifiers of the `did:key` method.

        key ─▶ 0xed 0x01 ‖ key ─▶ base58 text ─▶ "z" ‖ text

    Text is the list of its characters; `none` is a panic: an overflow of a `u32`, or an index out
    of range. -/

namespace ATP
open Collections Radix

/-- Multicodec prefix for Ed25519 public keys. -/
def ed25519MulticodecPrefix : List UInt8 := [0xed, 0x01]

/-- Base58-btc alphabet. -/
def base58Alphabet : List UInt8 :=
  "123456789ABCDEFGHJKLMNPQRSTUVWXYZabcdefghijkmnopqrstuvwxyz".toList.map
    fun c => UInt8.ofNat c.toNat

/-- A decentralized identifier. -/
structure Did where
  method : String
  identifier : String
  deriving DecidableEq

/-- The failures of this part. -/
inductive IdentityError where
  | invalidDid (reason : String)
  deriving DecidableEq

/-! ### Base58 -/

/-- Encode bytes to base58: a `1` for each leading zero byte, then the digits of the number. -/
def base58Encode (input : List UInt8) : Option (List Char) :=
  if input.isEmpty then some []
  else do
    let leadingZeros := (input.takeWhile fun b => b = 0).length
    let num ← (input.map UInt8.toNat).foldlM (readDigit (2 ^ 32) 256 58) [0]
    let digits ← num.reverse.mapM fun d => base58Alphabet[d]?
    pure (List.replicate leadingZeros '1' ++ digits.map fun b => Char.ofNat b.toNat)

/-- The value of a character: the position of `ch as u8`, its low byte, in the alphabet. -/
def base58Value (ch : Char) : Option ℕ := base58Alphabet.idxOf? (UInt8.ofNat ch.toNat)

/-- The loop of the decoder over the characters that remain. -/
def decodeChars : List Char → List ℕ → Option (Except String (List ℕ))
  | [], num => some (.ok num)
  | ch :: chars, num =>
    match base58Value ch with
    | none => some (.error ("invalid base58 character: " ++ ch.toString))
    | some val => do decodeChars chars (← readDigit (2 ^ 32) 58 256 num val)

/-- `while num.len() > 1 && last == 0 { num.pop() }`. -/
def popZeros (num : List ℕ) : List ℕ :=
  if num.length > 1 ∧ num.getLast? = some 0 then popZeros num.dropLast else num
termination_by num.length

/-- Decode a base58 text back to bytes. -/
def base58Decode (input : List Char) : Option (Except String (List UInt8)) :=
  if input.isEmpty then some (.ok [])
  else
    let leadingOnes := (input.takeWhile fun c => c = '1').length
    (decodeChars input [0]).map fun r => r.map fun num =>
      List.replicate leadingOnes 0 ++ (popZeros num).reverse.map UInt8.ofNat

/-! ### Identifiers -/

/-- The multicodec payload of a key. -/
def mcBytes (publicKey : Vector UInt8 32) : List UInt8 :=
  ed25519MulticodecPrefix ++ publicKey.toList

/-- Create a new DID from an Ed25519 public key. -/
def generateDid (publicKey : Vector UInt8 32) : Option (Except IdentityError Did) :=
  (base58Encode (mcBytes publicKey)).map fun encoded =>
    .ok ⟨"key", String.ofList ('z' :: encoded)⟩

/-- Verify that a DID is well-formed and consistent with the supplied public key. -/
def verifyDid (did : Did) (publicKey : Vector UInt8 32) : Option (Except IdentityError Bool) :=
  if did.method ≠ "key" then
    some (.error (.invalidDid ("unsupported DID method: " ++ did.method)))
  else
    (generateDid publicKey).map fun r =>
      r.map fun expected => did.identifier == expected.identifier

/-- The checks on the decoded payload. -/
def keyOfPayload (decoded : List UInt8) : Except IdentityError (Vector UInt8 32) :=
  if h : decoded.length = 34 then
    if decoded[0] ≠ 0xed ∨ decoded[1] ≠ 0x01 then
      .error (.invalidDid "multicodec prefix is not Ed25519 (0xed01)")
    else .ok ⟨(decoded.drop 2).toArray, by simp [h]⟩
  else .error (.invalidDid ("decoded length " ++ toString decoded.length ++ " != 34"))

/-- Extract the public key from a `did:key` identifier. -/
def extractPublicKey (did : Did) : Option (Except IdentityError (Vector UInt8 32)) :=
  if did.method ≠ "key" then
    some (.error (.invalidDid ("unsupported DID method: " ++ did.method)))
  else match did.identifier.toList with
    | 'z' :: encoded => (base58Decode encoded).map fun r =>
      (r.mapError fun e => .invalidDid ("base58 decode failed: " ++ e)).bind keyOfPayload
    | _ => some (.error (.invalidDid "identifier must start with 'z' (base58btc multibase)"))

/-! ### The alphabet -/

theorem length_alphabet : base58Alphabet.length = 58 := by decide

theorem nodup_alphabet : base58Alphabet.Nodup := by decide

theorem ascii_alphabet : ∀ b ∈ base58Alphabet, b.toNat < 128 := by
  rw [← List.forall_iff_forall_mem]
  decide

/-- The byte of a digit. -/
def base58Byte (d : ℕ) : UInt8 := base58Alphabet.getD d 0

/-- The character of a digit. -/
def base58Char (d : ℕ) : Char := Char.ofNat (base58Byte d).toNat

theorem alphabet_get {d : ℕ} (hd : d < 58) : base58Alphabet[d]? = some (base58Byte d) := by
  have h : d < base58Alphabet.length := by rw [length_alphabet]; exact hd
  rw [List.getElem?_eq_getElem h, base58Byte, List.getD_eq_getElem _ _ h]

theorem base58Byte_lt {d : ℕ} (hd : d < 58) : (base58Byte d).toNat < 128 :=
  ascii_alphabet _ (List.mem_of_getElem? (alphabet_get hd))

theorem toNat_base58Char : ∀ d < 58, (base58Char d).toNat = (base58Byte d).toNat := by decide

/-- A character is read as the digit whose byte is its low byte. -/
theorem base58Value_iff {ch : Char} {v : ℕ} :
    base58Value ch = some v ↔ v < 58 ∧ base58Byte v = UInt8.ofNat ch.toNat := by
  rw [base58Value, List.idxOf?_eq_some_iff]
  constructor
  · rintro ⟨hv, heq, -⟩
    refine ⟨length_alphabet ▸ hv, ?_⟩
    rw [← heq, base58Byte, List.getD_eq_getElem _ _ hv]
  · rintro ⟨hv, heq⟩
    have hlen : v < base58Alphabet.length := by rw [length_alphabet]; exact hv
    have hget : base58Alphabet[v] = UInt8.ofNat ch.toNat := by
      rw [← heq, base58Byte, List.getD_eq_getElem _ _ hlen]
    refine ⟨hlen, hget, fun j hj hj' => ?_⟩
    rw [← hget] at hj'
    have := (List.Nodup.getElem_inj_iff nodup_alphabet).mp hj'
    omega

theorem base58Value_char {d : ℕ} (hd : d < 58) : base58Value (base58Char d) = some d :=
  base58Value_iff.mpr ⟨hd, by rw [toNat_base58Char d hd, UInt8.ofNat_toNat]⟩

/-! ### The encoder -/

/-- The number that some bytes denote, highest first. -/
def bytesNumber (bytes : List UInt8) : ℕ := Nat.ofDigits 256 (bytes.map UInt8.toNat).reverse

theorem toNat_lt_256 {bytes : List UInt8} : ∀ v ∈ bytes.map UInt8.toNat, v < 256 := by
  intro v hv
  obtain ⟨b, -, rfl⟩ := List.mem_map.mp hv
  exact UInt8.toNat_lt b

/-- Encoding never panics: no `u32` overflows and every digit has a character. -/
theorem base58Encode_eq {bytes : List UInt8} (h : bytes ≠ []) :
    base58Encode bytes = some (List.replicate (bytes.takeWhile fun b => b = 0).length '1' ++
      (numeral 58 (bytesNumber bytes)).reverse.map base58Char) := by
  have hbound : 58 * 256 ≤ 2 ^ 32 := by omega
  have hnum := foldlM_readDigit (by omega) hbound (bytes.map UInt8.toNat) 0 toNat_lt_256
  rw [Nat.mul_zero, Nat.add_zero] at hnum
  have hdigits : (numeral 58 (bytesNumber bytes)).reverse.mapM (fun d => base58Alphabet[d]?) =
      some ((numeral 58 (bytesNumber bytes)).reverse.map base58Byte) := by
    refine mapM_eq_some_map fun d hd => alphabet_get ?_
    exact lt_of_mem_numeral (by omega) (List.mem_reverse.mp hd)
  have hempty : bytes.isEmpty = false := by simpa using h
  rw [base58Encode, hempty]
  have h0 : ([0] : List ℕ) = numeral 58 0 := rfl
  simp only [Bool.false_eq_true, if_false, h0, hnum, Option.bind_eq_bind, Option.bind_some]
  rw [← bytesNumber, hdigits]
  simp [base58Char]

/-! ### The decoder -/

/-- The characters are digits with these values. -/
def Reads (chars : List Char) (vs : List ℕ) : Prop :=
  List.Forall₂ (fun ch v => base58Value ch = some v) chars vs

theorem readDigit_value {ch : Char} {v : ℕ} (hv : base58Value ch = some v) (n : ℕ) :
    readDigit (2 ^ 32) 58 256 (numeral 256 n) v = some (numeral 256 (v + 58 * n)) :=
  readDigit_numeral (by omega) (by omega) (base58Value_iff.mp hv).1 n

theorem decodeChars_ok {chars : List Char} {vs : List ℕ} (h : Reads chars vs) : ∀ n,
    decodeChars chars (numeral 256 n) =
      some (.ok (numeral 256 (Nat.ofDigits 58 vs.reverse + 58 ^ vs.length * n))) := by
  induction h with
  | nil => intro n; simp [decodeChars]
  | @cons ch v chars vs hv _ ih =>
    intro n
    simp only [decodeChars, hv, readDigit_value hv, Option.bind_eq_bind, Option.bind_some, ih]
    rw [Nat.ofDigits_reverse_cons, List.length_cons]
    congr 3
    ring

/-- Text that is not all digits is an error; the loop never panics. -/
theorem decodeChars_cases (chars : List Char) : (∃ vs, Reads chars vs) ∨
    ∀ n, ∃ e, decodeChars chars (numeral 256 n) = some (.error e) := by
  induction chars with
  | nil => exact Or.inl ⟨[], .nil⟩
  | cons ch chars ih =>
    cases hv : base58Value ch with
    | none =>
      right
      intro n
      refine ⟨"invalid base58 character: " ++ ch.toString, ?_⟩
      simp only [decodeChars, hv]
    | some v =>
      rcases ih with ⟨vs, hvs⟩ | herror
      · exact Or.inl ⟨v :: vs, .cons hv hvs⟩
      · right
        intro n
        obtain ⟨e, he⟩ := herror (v + 58 * n)
        refine ⟨e, ?_⟩
        simp only [decodeChars, hv, readDigit_value hv, Option.bind_eq_bind, Option.bind_some, he]

/-- There is nothing to remove from the shortest digits of a number. -/
theorem popZeros_numeral (n : ℕ) : popZeros (numeral 256 n) = numeral 256 n := by
  rw [popZeros, if_neg]
  rintro ⟨hlen, hlast⟩
  rcases Nat.eq_zero_or_pos n with rfl | hn
  · simp [numeral] at hlen
  · rw [numeral_of_pos hn] at hlast
    have hne := Nat.digits_ne_nil_iff_ne_zero (b := 256).mpr hn.ne'
    rw [List.getLast?_eq_some_getLast hne] at hlast
    exact Nat.getLast_digit_ne_zero 256 hn.ne' (Option.some.inj hlast)

/-- The shortest bytes of a number, highest first. -/
def numberBytes (n : ℕ) : List UInt8 := (numeral 256 n).reverse.map UInt8.ofNat

theorem base58Decode_ok {chars : List Char} {vs : List ℕ} (hne : chars ≠ [])
    (h : Reads chars vs) : base58Decode chars =
      some (.ok (List.replicate (chars.takeWhile fun c => c = '1').length 0 ++
        numberBytes (Nat.ofDigits 58 vs.reverse))) := by
  have hempty : chars.isEmpty = false := by simpa using hne
  have hloop := decodeChars_ok h 0
  rw [Nat.mul_zero, Nat.add_zero] at hloop
  have h0 : ([0] : List ℕ) = numeral 256 0 := rfl
  rw [base58Decode, hempty]
  simp only [Bool.false_eq_true, if_false, h0, hloop, Option.map_some, Except.map,
    popZeros_numeral]
  rfl

/-- Decoding never panics: it fails or returns the bytes of the number that its digits denote. -/
theorem base58Decode_cases (chars : List Char) :
    (∃ e, base58Decode chars = some (.error e)) ∨ ∃ vs, Reads chars vs := by
  rcases decodeChars_cases chars with h | h
  · exact Or.inr h
  · left
    obtain ⟨e, he⟩ := h 0
    have h0 : ([0] : List ℕ) = numeral 256 0 := rfl
    cases chars with
    | nil => simp [decodeChars] at he
    | cons ch chars =>
      refine ⟨e, ?_⟩
      rw [base58Decode, h0, he]
      rfl

/-! ### Numbers and their bytes -/

theorem bytesNumber_numberBytes (n : ℕ) : bytesNumber (numberBytes n) = n := by
  have hmap : (numeral 256 n).map (UInt8.toNat ∘ UInt8.ofNat) = numeral 256 n := by
    refine (List.map_congr_left fun d hd => ?_).trans (List.map_id _)
    have hlt : d < 256 := lt_of_mem_numeral (by omega) hd
    exact UInt8.toNat_ofNat_of_lt' hlt
  rw [bytesNumber, numberBytes, List.map_map, ← List.map_reverse, List.reverse_reverse, hmap,
    ofDigits_numeral]

/-- Bytes that do not start with a zero are the shortest digits of their number. -/
theorem digits_bytesNumber {b : UInt8} (hb : b ≠ 0) (bytes : List UInt8) :
    Nat.digits 256 (bytesNumber (b :: bytes)) = ((b :: bytes).map UInt8.toNat).reverse := by
  have hb' : b.toNat ≠ 0 := fun h => hb (UInt8.toNat_inj.mp h)
  refine Nat.digits_ofDigits 256 (by omega) _ (fun v hv => ?_) (fun _ => ?_)
  · exact toNat_lt_256 v (List.mem_reverse.mp hv)
  · simpa using hb'

theorem bytesNumber_pos {b : UInt8} (hb : b ≠ 0) (bytes : List UInt8) :
    0 < bytesNumber (b :: bytes) := by
  rw [Nat.pos_iff_ne_zero, ← Nat.digits_ne_nil_iff_ne_zero (b := 256), digits_bytesNumber hb]
  simp

theorem numberBytes_bytesNumber {b : UInt8} (hb : b ≠ 0) (bytes : List UInt8) :
    numberBytes (bytesNumber (b :: bytes)) = b :: bytes := by
  rw [numberBytes, numeral_of_pos (bytesNumber_pos hb bytes), digits_bytesNumber hb,
    List.reverse_reverse, List.map_map]
  exact (List.map_congr_left fun x _ => UInt8.ofNat_toNat).trans (List.map_id _)

theorem bytesNumber_zeros (z : ℕ) (bytes : List UInt8) :
    bytesNumber (List.replicate z 0 ++ bytes) = bytesNumber bytes := by
  rw [bytesNumber, List.map_append, List.reverse_append, List.map_replicate,
    List.reverse_replicate]
  exact Nat.ofDigits_append_replicate_zero _

end ATP
