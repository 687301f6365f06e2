import AgentTransport.Identity.Did

/-! Which identifiers stand for a key.

    The encoder and the decoder of base58 are inverse to each other, so the identifier made from
    a key is accepted for it and for no other key. The decoder looks only at the low byte of a
    character, so it also accepts other texts for the key: a respelling has a character that is
    not ASCII in the place of a digit, or one that reads as the digit zero in front. -/

namespace ATP
open Collections Radix

/-! ### Base58 -/

/-- The number of the digits is that of the text they are written as. -/
theorem reads_map_char {ds : List ℕ} (h : ∀ d ∈ ds, d < 58) : Reads (ds.map base58Char) ds :=
  List.forall₂_map_left_iff.mpr (List.forall₂_same.mpr fun d hd => base58Value_char (h d hd))

theorem base58Char_eq_one : ∀ d < 58, base58Char d = '1' → d = 0 := by decide

/-- The highest digit of a positive number is not written as a `1`. -/
theorem head_numeral {n : ℕ} (hn : 0 < n) :
    ∃ d ds, (numeral 58 n).reverse = d :: ds ∧ base58Char d ≠ '1' := by
  have hne := Nat.digits_ne_nil_iff_ne_zero (b := 58).mpr hn.ne'
  have hlast := Nat.getLast_digit_ne_zero 58 hn.ne'
  have hsplit := List.dropLast_append_getLast hne
  rw [numeral_of_pos hn]
  refine ⟨(Nat.digits 58 n).getLast hne, (Nat.digits 58 n).dropLast.reverse, ?_, fun h => ?_⟩
  · rw [List.reverse_eq_cons_iff, List.reverse_reverse, hsplit]
  · exact hlast (base58Char_eq_one _ (Nat.digits_lt_base (by omega) (List.getLast_mem hne)) h)

theorem takeWhile_replicate {α : Type} [DecidableEq α] {a c : α} (hc : c ≠ a) (z : ℕ)
    (rest : List α) :
    (List.replicate z a ++ c :: rest).takeWhile (fun x => x = a) = List.replicate z a := by
  rw [List.takeWhile_append_of_pos (fun x hx => decide_eq_true (List.eq_of_mem_replicate hx)),
    List.takeWhile_cons_of_neg (by simpa using hc), List.append_nil]

theorem reads_ones : ∀ z, Reads (List.replicate z '1') (List.replicate z 0)
  | 0 => .nil
  | z + 1 => .cons (by decide) (reads_ones z)

/-- Leading zeros, and what follows them. -/
theorem split_zeros {bytes : List UInt8} (h : ∃ b ∈ bytes, b ≠ 0) :
    ∃ z b rest, b ≠ 0 ∧ bytes = List.replicate z 0 ++ b :: rest := by
  induction bytes with
  | nil => simp at h
  | cons c bytes ih =>
    by_cases hc : c = 0
    · obtain ⟨z, b, rest, hb, rfl⟩ := ih (by simpa [hc] using h)
      exact ⟨z + 1, b, rest, hb, by rw [hc, List.replicate_succ, List.cons_append]⟩
    · exact ⟨0, c, bytes, hc, rfl⟩

/-- Decoding undoes encoding, unless all bytes are zero. -/
theorem base58_roundtrip {bytes : List UInt8} (h : ∃ b ∈ bytes, b ≠ 0) :
    ∃ text, base58Encode bytes = some text ∧ base58Decode text = some (.ok bytes) := by
  obtain ⟨z, b, rest, hb, rfl⟩ := split_zeros h
  have hpos : 0 < bytesNumber (b :: rest) := bytesNumber_pos hb rest
  obtain ⟨d, ds, hdigits, hone⟩ := head_numeral hpos
  have hreads : Reads (List.replicate z '1' ++ (d :: ds).map base58Char)
      (List.replicate z 0 ++ d :: ds) := by
    refine List.rel_append (reads_ones z) (reads_map_char fun x hx => ?_)
    rw [← hdigits] at hx
    exact lt_of_mem_numeral (by omega) (List.mem_reverse.mp hx)
  have hnumber : Nat.ofDigits 58 (List.replicate z 0 ++ d :: ds).reverse =
      bytesNumber (b :: rest) := by
    rw [← hdigits, List.reverse_append, List.reverse_reverse, List.reverse_replicate,
      Nat.ofDigits_append_replicate_zero, ofDigits_numeral]
  refine ⟨List.replicate z '1' ++ (d :: ds).map base58Char, ?_, ?_⟩
  · rw [base58Encode_eq (by simp), takeWhile_replicate hb, List.length_replicate,
      bytesNumber_zeros, hdigits]
  · rw [base58Decode_ok (by simp) hreads, List.map_cons, takeWhile_replicate hone,
      List.length_replicate, hnumber, numberBytes_bytesNumber hb]

/-! ### The identifier of a key -/

/-- The number that the payload of a key denotes. -/
def payloadNumber (key : Vector UInt8 32) : ℕ := 0xed01 * 256 ^ 32 + bytesNumber key.toList

theorem payloadNumber_pos (key : Vector UInt8 32) : 0 < payloadNumber key := by
  rw [payloadNumber]
  omega

/-- The identifier of a key, without the `z`. -/
def canonicalText (key : Vector UInt8 32) : List Char :=
  (numeral 58 (payloadNumber key)).reverse.map base58Char

theorem bytesNumber_mcBytes (key : Vector UInt8 32) :
    bytesNumber (mcBytes key) = payloadNumber key := by
  rw [bytesNumber, mcBytes, List.map_append, List.reverse_append, Nat.ofDigits_append]
  rw [List.length_reverse, List.length_map, Vector.length_toList, ← bytesNumber, payloadNumber,
    Nat.add_comm]
  rfl

/-- The identifier of a key is its canonical text. -/
theorem generateDid_eq (key : Vector UInt8 32) :
    generateDid key = some (.ok ⟨"key", String.ofList ('z' :: canonicalText key)⟩) := by
  have hne : mcBytes key ≠ [] := by simp [mcBytes, ed25519MulticodecPrefix]
  have hzeros : (mcBytes key).takeWhile (fun b => b = 0) = [] := by
    simp [mcBytes, ed25519MulticodecPrefix]
  rw [generateDid, base58Encode_eq hne, hzeros, bytesNumber_mcBytes]
  rfl

/-- The payload checks accept the payload of a key, and nothing else. -/
theorem keyOfPayload_iff {decoded : List UInt8} {key : Vector UInt8 32} :
    keyOfPayload decoded = .ok key ↔ decoded = mcBytes key := by
  constructor
  · intro h
    unfold keyOfPayload at h
    split_ifs at h with hlen hprefix
    obtain ⟨h0, h1⟩ := not_or.mp hprefix
    rw [not_not] at h0 h1
    match decoded, hlen with
    | a :: b :: rest, _ =>
      obtain rfl := Except.ok.inj h
      simp only [List.getElem_cons_zero, List.getElem_cons_succ] at h0 h1
      subst h0 h1
      simp [mcBytes, ed25519MulticodecPrefix]
  · rintro rfl
    have hlen : (mcBytes key).length = 34 := by simp [mcBytes, ed25519MulticodecPrefix]
    rw [keyOfPayload, dif_pos hlen]
    simp [mcBytes, ed25519MulticodecPrefix, Vector.toList]

theorem numberBytes_payloadNumber (key : Vector UInt8 32) :
    numberBytes (payloadNumber key) = mcBytes key := by
  rw [← bytesNumber_mcBytes]
  exact numberBytes_bytesNumber (by decide) _

/-- No `1` in front. -/
theorem takeWhile_one {chars : List Char} (h : chars.head? ≠ some '1') :
    chars.takeWhile (fun c => c = '1') = [] := by
  cases chars with
  | nil => rfl
  | cons c chars => exact List.takeWhile_cons_of_neg (by simpa using h)

/-- The texts that decode to the payload of a key. -/
theorem base58Decode_payload_iff {chars : List Char} {key : Vector UInt8 32} :
    base58Decode chars = some (.ok (mcBytes key)) ↔ chars.head? ≠ some '1' ∧
      ∃ vs, Reads chars vs ∧ Nat.ofDigits 58 vs.reverse = payloadNumber key := by
  constructor
  · intro h
    rcases base58Decode_cases chars with ⟨e, he⟩ | ⟨vs, hvs⟩
    · rw [he] at h
      cases Option.some.inj h
    · cases chars with
      | nil =>
        have hnil : ([] : List UInt8) = mcBytes key := Except.ok.inj (Option.some.inj h)
        simp [mcBytes, ed25519MulticodecPrefix] at hnil
      | cons c chars =>
        rw [base58Decode_ok (by simp) hvs] at h
        have hbytes := Except.ok.inj (Option.some.inj h)
        have hone : c ≠ '1' := by
          -- a leading zero byte is not the multicodec prefix
          rintro rfl
          simp [mcBytes, ed25519MulticodecPrefix, List.replicate_succ] at hbytes
        have hhead : (c :: chars).head? ≠ some '1' := by simpa using hone
        rw [takeWhile_one hhead] at hbytes
        refine ⟨hhead, vs, hvs, ?_⟩
        rw [← bytesNumber_mcBytes, ← hbytes]
        exact (bytesNumber_numberBytes _).symm
  · rintro ⟨hhead, vs, hvs, hnumber⟩
    have hne : chars ≠ [] := by
      rintro rfl
      obtain rfl := List.forall₂_nil_left_iff.mp hvs
      exact (payloadNumber_pos key).ne hnumber
    rw [base58Decode_ok hne hvs, takeWhile_one hhead, hnumber, numberBytes_payloadNumber]
    rfl

/-- Which identifiers are accepted, and for which key: those whose characters read, by their low
    bytes, as the number of the payload, without a leading `1`. -/
theorem extractPublicKey_iff {did : Did} {key : Vector UInt8 32} :
    extractPublicKey did = some (.ok key) ↔ did.method = "key" ∧ ∃ chars,
      did.identifier.toList = 'z' :: chars ∧ chars.head? ≠ some '1' ∧
      ∃ vs, Reads chars vs ∧ Nat.ofDigits 58 vs.reverse = payloadNumber key := by
  simp only [← base58Decode_payload_iff]
  constructor
  · intro h
    unfold extractPublicKey at h
    split_ifs at h with hmethod
    · cases Option.some.inj h
    · refine ⟨not_not.mp hmethod, ?_⟩
      split at h
      · rename_i chars hid
        refine ⟨chars, hid, ?_⟩
        obtain ⟨r, hr, hkey⟩ := Option.map_eq_some_iff.mp h
        cases r with
        | error e => cases hkey
        | ok decoded =>
          rw [hr, keyOfPayload_iff.mp hkey]
      -- an identifier that does not begin with `z` is refused
      · cases Option.some.inj h
  · rintro ⟨hmethod, chars, hid, hdecode⟩
    rw [extractPublicKey, if_neg (not_not.mpr hmethod), hid]
    simp only [hdecode, Option.map_some]
    exact congrArg some (keyOfPayload_iff.mpr rfl)

/-- Checking an identifier of the method `key` compares it with the canonical text. -/
theorem verifyDid_eq {did : Did} (key : Vector UInt8 32) (h : did.method = "key") :
    verifyDid did key =
      some (.ok (decide (did.identifier.toList = 'z' :: canonicalText key))) := by
  rw [verifyDid, if_neg (not_not.mpr h), generateDid_eq]
  simp only [Option.map_some, Except.map, Option.some.injEq, Except.ok.injEq]
  rw [Bool.eq_iff_iff, beq_iff_eq, decide_eq_true_iff, ← String.toList_inj, String.toList_ofList]

theorem verifyDid_iff {did : Did} {key : Vector UInt8 32} :
    verifyDid did key = some (.ok true) ↔
      did.method = "key" ∧ did.identifier.toList = 'z' :: canonicalText key := by
  by_cases h : did.method = "key"
  · rw [verifyDid_eq key h]
    simp [h]
  · rw [verifyDid, if_pos h]
    simp [h]

/-- The canonical text starts with no `1`, and reads as the number of the payload. -/
theorem reads_canonicalText (key : Vector UInt8 32) :
    (canonicalText key).head? ≠ some '1' ∧
      Reads (canonicalText key) (numeral 58 (payloadNumber key)).reverse := by
  constructor
  · obtain ⟨d, ds, hdigits, hone⟩ := head_numeral (payloadNumber_pos key)
    rw [canonicalText, hdigits]
    simpa using hone
  · exact reads_map_char fun d hd => lt_of_mem_numeral (by omega) (List.mem_reverse.mp hd)

/-- The identifier made from a key is accepted for that key. -/
theorem extractPublicKey_canonical (key : Vector UInt8 32) :
    extractPublicKey ⟨"key", String.ofList ('z' :: canonicalText key)⟩ = some (.ok key) := by
  obtain ⟨hhead, hreads⟩ := reads_canonicalText key
  refine extractPublicKey_iff.mpr ⟨rfl, canonicalText key, String.toList_ofList, hhead, _,
    hreads, ?_⟩
  rw [List.reverse_reverse, ofDigits_numeral]

/-- The base58 loops never overflow, and the identifier made from a key stands for that key and
    for no other. -/
theorem did_roundtrip :
    (∀ bytes, (base58Encode bytes).isSome) ∧ (∀ text, (base58Decode text).isSome) ∧
    ∀ key, ∃ did, generateDid key = some (.ok did) ∧
      extractPublicKey did = some (.ok key) ∧ verifyDid did key = some (.ok true) ∧
      ∀ key', key' ≠ key → verifyDid did key' = some (.ok false) ∧
        generateDid key' ≠ some (.ok did) := by
  refine ⟨fun bytes => ?_, fun text => ?_, fun key => ?_⟩
  · rcases eq_or_ne bytes [] with rfl | h
    · rfl
    · rw [base58Encode_eq h]
      rfl
  · rcases base58Decode_cases text with ⟨e, he⟩ | ⟨vs, hvs⟩
    · rw [he]
      rfl
    · rcases eq_or_ne text [] with rfl | h
      · rfl
      · rw [base58Decode_ok h hvs]
        rfl
  · have hextract := extractPublicKey_canonical key
    refine ⟨_, generateDid_eq key, hextract, verifyDid_iff.mpr ⟨rfl, String.toList_ofList⟩, ?_⟩
    intro key' hne
    -- a common identifier would stand for both keys
    have htext : canonicalText key ≠ canonicalText key' := by
      intro heq
      rw [heq, extractPublicKey_canonical key'] at hextract
      exact hne (Except.ok.inj (Option.some.inj hextract))
    constructor
    · rw [verifyDid_eq key' rfl, String.toList_ofList]
      simpa using htext
    · intro h
      rw [generateDid_eq] at h
      have hdid := congrArg (fun d : Did => d.identifier.toList)
        (Except.ok.inj (Option.some.inj h))
      simp only [String.toList_ofList, List.cons.injEq, true_and] at hdid
      exact htext hdid.symm

/-- The all-zero key and another one. -/
theorem did_roundtrip_zero :
    ∃ did, generateDid (Vector.replicate 32 0) = some (.ok did) ∧
      verifyDid did (Vector.replicate 32 1) = some (.ok false) := by
  obtain ⟨did, hdid, -, -, hother⟩ := did_roundtrip.2.2 (Vector.replicate 32 0)
  exact ⟨did, hdid, (hother (Vector.replicate 32 1) (by decide)).1⟩

/-! ### Other texts for a key -/

/-- `c as u8` is the byte of the ASCII character `t`. -/
def SameLowByte (c t : Char) : Prop := c.toNat % 256 = t.toNat

instance (c t : Char) : Decidable (SameLowByte c t) := inferInstanceAs (Decidable (_ = _))

/-- The identifier writes the canonical text of the key, after any number of zeros, with the low
    bytes of its characters, some of which are not ASCII; the first is not a real `1`. -/
def Respelled (did : Did) (key : Vector UInt8 32) : Prop :=
  did.method = "key" ∧ ∃ chars, did.identifier.toList = 'z' :: chars ∧
    (∃ c ∈ chars, 128 ≤ c.toNat) ∧ chars.head? ≠ some '1' ∧
    ∃ zeros, List.Forall₂ SameLowByte chars (List.replicate zeros '1' ++ canonicalText key)

theorem base58Value_iff_sameLowByte {ch : Char} {v : ℕ} :
    base58Value ch = some v ↔ v < 58 ∧ SameLowByte ch (base58Char v) := by
  rw [base58Value_iff]
  refine and_congr_right fun hv => ?_
  rw [SameLowByte, toNat_base58Char v hv, ← UInt8.toNat_inj, UInt8.toNat_ofNat', eq_comm]

/-- Digits that denote the number of a payload are its shortest ones, after some zeros. -/
theorem digits_of_number {vs : List ℕ} {n : ℕ} (hn : 0 < n) (hvs : ∀ v ∈ vs, v < 58)
    (h : Nat.ofDigits 58 vs.reverse = n) :
    ∃ zeros, vs = List.replicate zeros 0 ++ (numeral 58 n).reverse := by
  induction vs with
  | nil => exact absurd h hn.ne
  | cons v vs ih =>
    rcases Nat.eq_zero_or_pos v with rfl | hv
    · rw [Nat.ofDigits_reverse_zero_cons] at h
      obtain ⟨zeros, rfl⟩ := ih (fun x hx => hvs x (List.mem_cons_of_mem _ hx)) h
      exact ⟨zeros + 1, rfl⟩
    · refine ⟨0, ?_⟩
      have hdigits := Nat.digits_ofDigits 58 (by omega) (v :: vs).reverse
        (fun x hx => hvs x (List.mem_reverse.mp hx)) (fun _ => by simpa using hv.ne')
      rw [numeral_of_pos hn, ← h, hdigits, List.reverse_reverse]
      rfl

theorem reads_iff {chars : List Char} : ∀ {vs : List ℕ}, Reads chars vs ↔
    (∀ v ∈ vs, v < 58) ∧ List.Forall₂ SameLowByte chars (vs.map base58Char) := by
  induction chars with
  | nil =>
    intro vs
    simp only [Reads, List.forall₂_nil_left_iff, List.map_eq_nil_iff]
    exact ⟨fun h => ⟨by simp [h], h⟩, fun h => h.2⟩
  | cons c chars ih =>
    intro vs
    cases vs with
    | nil => simp [Reads]
    | cons v vs =>
      rw [List.map_cons, Reads, List.forall₂_cons, List.forall₂_cons, ← Reads, ih,
        base58Value_iff_sameLowByte, List.forall_mem_cons]
      tauto

theorem map_canonical (zeros : ℕ) (key : Vector UInt8 32) :
    (List.replicate zeros 0 ++ (numeral 58 (payloadNumber key)).reverse).map base58Char =
      List.replicate zeros '1' ++ canonicalText key := by
  rw [List.map_append, List.map_replicate]
  rfl

/-- The texts that read as the number of a payload are those that write the canonical text after
    some zeros. -/
theorem reads_payload_iff {chars : List Char} {key : Vector UInt8 32} :
    (∃ vs, Reads chars vs ∧ Nat.ofDigits 58 vs.reverse = payloadNumber key) ↔
      ∃ zeros, List.Forall₂ SameLowByte chars
        (List.replicate zeros '1' ++ canonicalText key) := by
  constructor
  · rintro ⟨vs, hreads, hnumber⟩
    obtain ⟨hlt, hsame⟩ := reads_iff.mp hreads
    obtain ⟨zeros, rfl⟩ := digits_of_number (payloadNumber_pos key) hlt hnumber
    rw [map_canonical] at hsame
    exact ⟨zeros, hsame⟩
  · rintro ⟨zeros, hsame⟩
    refine ⟨List.replicate zeros 0 ++ (numeral 58 (payloadNumber key)).reverse, ?_, ?_⟩
    · refine reads_iff.mpr ⟨fun v hv => ?_, map_canonical zeros key ▸ hsame⟩
      rcases List.mem_append.mp hv with hv | hv
      · rw [List.eq_of_mem_replicate hv]
        omega
      · exact lt_of_mem_numeral (by omega) (List.mem_reverse.mp hv)
    · rw [List.reverse_append, List.reverse_reverse, List.reverse_replicate,
        Nat.ofDigits_append_replicate_zero, ofDigits_numeral]

/-- An ASCII text has no other spelling. -/
theorem eq_of_sameLowByte {chars text : List Char} (h : List.Forall₂ SameLowByte chars text)
    (hascii : ∀ c ∈ chars, c.toNat < 128) : chars = text := by
  induction h with
  | nil => rfl
  | @cons c t chars text hc _ ih =>
    obtain ⟨hlt, hascii⟩ := List.forall_mem_cons.mp hascii
    rw [SameLowByte, Nat.mod_eq_of_lt (by omega)] at hc
    rw [ih hascii, Char.toNat_inj.mp hc]

theorem ascii_canonicalText (key : Vector UInt8 32) : ∀ c ∈ canonicalText key, c.toNat < 128 := by
  intro c hc
  obtain ⟨d, hd, rfl⟩ := List.mem_map.mp hc
  have hlt : d < 58 := lt_of_mem_numeral (by omega) (List.mem_reverse.mp hd)
  rw [toNat_base58Char d hlt]
  exact base58Byte_lt hlt

/-- An identifier is accepted for a key exactly when it is the identifier of the key or a
    respelling of it. -/
theorem extractPublicKey_cases {did : Did} {key : Vector UInt8 32} :
    extractPublicKey did = some (.ok key) ↔
      verifyDid did key = some (.ok true) ∨ Respelled did key := by
  simp only [extractPublicKey_iff, verifyDid_iff, reads_payload_iff]
  constructor
  · rintro ⟨hmethod, chars, hid, hhead, zeros, hsame⟩
    by_cases hascii : ∃ c ∈ chars, 128 ≤ c.toNat
    · exact Or.inr ⟨hmethod, chars, hid, hascii, hhead, zeros, hsame⟩
    · left
      obtain rfl := eq_of_sameLowByte hsame (by simpa using hascii)
      cases zeros with
      | zero => exact ⟨hmethod, hid⟩
      | succ zeros => exact absurd rfl hhead
  · rintro (⟨hmethod, hid⟩ | ⟨hmethod, chars, hid, -, hhead, hsame⟩)
    · refine ⟨hmethod, canonicalText key, hid, (reads_canonicalText key).1, 0, ?_⟩
      refine List.forall₂_same.mpr fun c hc => ?_
      have hlt := ascii_canonicalText key c hc
      exact Nat.mod_eq_of_lt (by omega)
    · exact ⟨hmethod, chars, hid, hhead, hsame⟩

theorem not_verify_of_respelled {did : Did} {key : Vector UInt8 32} (h : Respelled did key) :
    verifyDid did key ≠ some (.ok true) := by
  intro hverify
  obtain ⟨-, chars, hid, ⟨c, hc, hlarge⟩, -⟩ := h
  rw [(verifyDid_iff.mp hverify).2] at hid
  obtain rfl := (List.cons.inj hid).2
  have := ascii_canonicalText key c hc
  omega

/-- Extraction and verification agree on an identifier and a key exactly when the identifier is no
    respelling, and of the identifiers that are none only one is accepted for a key. -/
theorem extract_iff_verify (did : Did) (key : Vector UInt8 32) :
    ((extractPublicKey did = some (.ok key) ↔ verifyDid did key = some (.ok true)) ↔
      ¬ Respelled did key) ∧
    ∀ did', ¬ Respelled did key → ¬ Respelled did' key →
      extractPublicKey did = some (.ok key) → extractPublicKey did' = some (.ok key) →
      did = did' := by
  constructor
  · rw [extractPublicKey_cases]
    constructor
    · intro h hrespelled
      exact not_verify_of_respelled hrespelled (h.mp (Or.inr hrespelled))
    · intro h
      exact or_iff_left h
  · intro did' h h' hextract hextract'
    obtain ⟨hmethod, hid⟩ :=
      verifyDid_iff.mp ((extractPublicKey_cases.mp hextract).resolve_right h)
    obtain ⟨hmethod', hid'⟩ :=
      verifyDid_iff.mp ((extractPublicKey_cases.mp hextract').resolve_right h')
    obtain ⟨method, identifier⟩ := did
    obtain ⟨method', identifier'⟩ := did'
    have htext : identifier = identifier' := String.toList_inj.mp (hid.trans hid'.symm)
    rw [show method = method' from hmethod.trans hmethod'.symm, htext]

/-- The digits of the payload of the all-zero key. -/
def zeroKeyDigits : List ℕ :=
  [5, 20, 43, 37, 26, 15, 2, 34, 14, 14, 25, 19, 31, 28, 27, 6, 28, 48, 40, 39, 32, 55, 48, 49,
    5, 31, 57, 47, 33, 15, 49, 23, 51, 14, 20, 40, 0, 52, 53, 48, 15, 56, 0, 53, 12, 45, 22]

theorem zeroKeyDigits_number :
    Nat.ofDigits 58 zeroKeyDigits.reverse = payloadNumber (Vector.replicate 32 0) := by decide

/-- The identifier of the all-zero key with a character in front whose low byte is a `1`. -/
theorem extract_without_verify :
    let did : Did := ⟨"key", "z\u01316MkeTG3bFFSLYVU7VqhgZxqr6YzpaGrQtFMh1uvqGy1vDnP"⟩
    extractPublicKey did = some (.ok (Vector.replicate 32 0)) ∧
      verifyDid did (Vector.replicate 32 0) = some (.ok false) := by
  intro did
  constructor
  · have hreads : Reads did.identifier.toList.tail (0 :: zeroKeyDigits) :=
      mapM_eq_some_iff.mp (by decide)
    refine extractPublicKey_iff.mpr ⟨rfl, did.identifier.toList.tail, by decide, by decide,
      0 :: zeroKeyDigits, hreads, ?_⟩
    rw [Nat.ofDigits_reverse_zero_cons, zeroKeyDigits_number]
  · have hne : did.identifier.toList ≠ 'z' :: canonicalText (Vector.replicate 32 0) := by
      intro h
      have htail : did.identifier.toList.tail = canonicalText (Vector.replicate 32 0) :=
        congrArg List.tail h
      have hmem : Char.ofNat 0x131 ∈ canonicalText (Vector.replicate 32 0) := by
        rw [← htail]
        decide
      exact absurd (ascii_canonicalText _ _ hmem) (by decide)
    rw [verifyDid_eq _ rfl, decide_eq_false hne]

/-- The identifier of the all-zero key, letter by letter. -/
theorem extract_iff_verify_zero :
    (⟨"key", "z6MkeTG3bFFSLYVU7VqhgZxqr6YzpaGrQtFMh1uvqGy1vDnP"⟩ : Did) =
      ⟨"key", String.ofList ('z' :: canonicalText (Vector.replicate 32 0))⟩ := by
  have hascii : ∀ {did : Did}, (∀ c ∈ did.identifier.toList, c.toNat < 128) →
      ¬ Respelled did (Vector.replicate 32 0) := by
    rintro did h ⟨-, chars, hid, ⟨c, hc, hlarge⟩, -⟩
    have := h c (by rw [hid]; exact List.mem_cons_of_mem _ hc)
    omega
  refine (extract_iff_verify _ (Vector.replicate 32 0)).2 _ (hascii (by simp)) (hascii ?_) ?_
    (extractPublicKey_canonical _)
  · rw [String.toList_ofList]
    exact List.forall_mem_cons.mpr ⟨by decide, ascii_canonicalText _⟩
  · have hreads : Reads
        "z6MkeTG3bFFSLYVU7VqhgZxqr6YzpaGrQtFMh1uvqGy1vDnP".toList.tail zeroKeyDigits :=
      mapM_eq_some_iff.mp (by decide)
    exact extractPublicKey_iff.mpr ⟨rfl, _, by decide, by decide, _, hreads,
      zeroKeyDigits_number⟩

end ATP
