import AgentTransport.Types.Basic
import Mathlib.Tactic.NormNum

/-! What the codec calls of the `uuid` and `chrono` crates, and what it relies on. -/

namespace ATP

structure Crates where
  parseStr : String → Option Uuid
  display : Uuid → String
  fromTimestamp : Int64 → UInt32 → Option DateTime
  fromTimestampMillis : Int64 → Option DateTime
  timestamp : DateTime → Int64
  timestampSubsecNanos : DateTime → UInt32
  timestampMillis : DateTime → Int64

namespace Crates

/-- A value of `chrono::DateTime<Utc>`: one that `from_timestamp` makes. -/
def IsDateTime (c : Crates) (d : DateTime) : Prop := ∃ s n, c.fromTimestamp s n = some d

/-- A whole number of milliseconds from the epoch: one that `from_timestamp_millis` makes. -/
def WholeMillis (c : Crates) (d : DateTime) : Prop := ∃ ms, c.fromTimestampMillis ms = some d

/-- A reading of the clock: its whole milliseconds are in range as well. -/
structure Reading (c : Crates) (now : DateTime) : Prop where
  isDateTime : c.IsDateTime now
  millis : (c.fromTimestampMillis (c.timestampMillis now)).isSome

/-- The documented behaviour of the two crates. -/
structure Lawful (c : Crates) : Prop where
  /-- A UUID is parsed from its own text. -/
  parseStr_display : ∀ u, c.parseStr (c.display u) = some u
  /-- A `DateTime` keeps the seconds and the nanoseconds it was made from. -/
  timestamp_eq : ∀ {s n d}, c.fromTimestamp s n = some d → c.timestamp d = s
  subsecNanos_eq : ∀ {s n d}, c.fromTimestamp s n = some d → c.timestampSubsecNanos d = n
  /-- Two seconds of nanoseconds are never accepted. -/
  nanos_lt : ∀ {s n d}, c.fromTimestamp s n = some d → n.toNat < 2 * 10 ^ 9
  millis_eq : ∀ {ms d}, c.fromTimestampMillis ms = some d → c.timestampMillis d = ms

section Laws
variable {c : Crates}

/-- `from_timestamp` undoes `timestamp` and `timestamp_subsec_nanos`. -/
theorem IsDateTime.fromTimestamp_eq (hc : c.Lawful) {d : DateTime} (hd : c.IsDateTime d) :
    c.fromTimestamp (c.timestamp d) (c.timestampSubsecNanos d) = some d := by
  obtain ⟨s, n, h⟩ := hd
  rw [hc.timestamp_eq h, hc.subsecNanos_eq h, h]

theorem IsDateTime.subsecNanos_lt (hc : c.Lawful) {d : DateTime} (hd : c.IsDateTime d) :
    (c.timestampSubsecNanos d).toNat < 2 * 10 ^ 9 :=
  hc.nanos_lt (hd.fromTimestamp_eq hc)

/-- `from_timestamp_millis` undoes `timestamp_millis` on whole milliseconds. -/
theorem WholeMillis.fromTimestampMillis_eq (hc : c.Lawful) {d : DateTime}
    (hd : c.WholeMillis d) : c.fromTimestampMillis (c.timestampMillis d) = some d := by
  obtain ⟨ms, h⟩ := hd
  rw [hc.millis_eq h, h]

end Laws

/-! ### The hyphenated form of a UUID, and the time line without leap seconds -/

/-- The value of a hexadecimal digit. -/
def hexValue (ch : Char) : ℕ := if ch.isDigit then ch.toNat - 48 else ch.toNat - 87

/-- The UUID with these 32 digits, hyphens aside. -/
def parseHyphenated (s : String) : Option Uuid :=
  let digits := s.toList.filter (· ≠ '-')
  if digits.length = 32 ∧ digits.all fun ch => ch.isDigit || ('a' ≤ ch && ch ≤ 'f') then
    some (BitVec.ofNat 128 (digits.foldl (fun acc ch => acc * 16 + hexValue ch) 0))
  else none

theorem hexValue_digitChar : ∀ k < 16, hexValue (Nat.digitChar k) = k := by decide

/-- Reading `n` hexadecimal digits of a number gives what is left of it modulo `16 ^ n`. -/
theorem foldl_digits (n : ℕ) : ∀ u : ℕ,
    ((List.range n).map fun i => Nat.digitChar (u / 16 ^ (n - 1 - i) % 16)).foldl
      (fun acc ch => acc * 16 + hexValue ch) 0 = u % 16 ^ n := by
  induction n with
  | zero => intro u; simp [Nat.mod_one]
  | succ n ih =>
    intro u
    have hinit : (List.range n).map (fun i => Nat.digitChar (u / 16 ^ (n + 1 - 1 - i) % 16)) =
        (List.range n).map fun i => Nat.digitChar (u / 16 / 16 ^ (n - 1 - i) % 16) := by
      refine List.map_congr_left fun i hi => ?_
      have hsub : n + 1 - 1 - i = (n - 1 - i) + 1 := by
        have := List.mem_range.mp hi
        omega
      rw [hsub, pow_succ', Nat.div_div_eq_div_mul]
    rw [List.range_succ, List.map_append, List.foldl_append, hinit, ih]
    simp only [List.map_cons, List.map_nil, List.foldl_cons, List.foldl_nil,
      Nat.add_sub_cancel, Nat.sub_self, pow_zero, Nat.div_one]
    rw [hexValue_digitChar _ (Nat.mod_lt _ (by decide)), pow_succ', Nat.mod_mul]
    omega

/-- Stripped of its hyphens, the text of a UUID is its 32 digits. -/
theorem filter_display (u : Uuid) : (Uuid.display u).toList.filter (· ≠ '-') =
    (List.range 32).map fun i => Nat.digitChar (u.toNat / 16 ^ (31 - i) % 16) := by
  set digits := (List.range 32).map fun i => Nat.digitChar (u.toNat / 16 ^ (31 - i) % 16)
    with hdigits
  have hdigit : ∀ k < 16, Nat.digitChar k ≠ '-' := by decide
  have hkeep : digits.filter (· ≠ '-') = digits := by
    refine List.filter_eq_self.mpr fun ch hch => ?_
    obtain ⟨i, -, rfl⟩ := List.mem_map.mp hch
    exact decide_eq_true (hdigit _ (Nat.mod_lt _ (by decide)))
  have hlen : (digits.drop 20).take 12 = digits.drop 20 :=
    List.take_of_length_le (by simp [hdigits])
  have htext : (Uuid.display u).toList = digits.take 8 ++ '-' :: ((digits.drop 8).take 4 ++
      '-' :: ((digits.drop 12).take 4 ++ '-' :: ((digits.drop 16).take 4 ++
        '-' :: digits.drop 20))) := by
    rw [← hlen]
    simp [Uuid.display, ← hdigits]
  -- the five groups of the text are consecutive pieces of the digits
  have hjoin : digits.take 8 ++ ((digits.drop 8).take 4 ++ ((digits.drop 12).take 4 ++
      ((digits.drop 16).take 4 ++ digits.drop 20))) = digits := by
    have hstep : ∀ k, (digits.drop k).take 4 ++ digits.drop (k + 4) = digits.drop k := fun k => by
      rw [← List.drop_drop, List.take_append_drop]
    rw [hstep 16, hstep 12, hstep 8, List.take_append_drop]
  rw [htext]
  simp only [List.filter_append]
  conv_rhs => rw [← hkeep, ← hjoin]
  simp

/-- A UUID is parsed from its own text. -/
theorem parseHyphenated_display (u : Uuid) : parseHyphenated (Uuid.display u) = some u := by
  have hdigit : ∀ k < 16, ((Nat.digitChar k).isDigit ||
    ('a' ≤ Nat.digitChar k && Nat.digitChar k ≤ 'f')) = true := by decide
  have hall : ((List.range 32).map fun i => Nat.digitChar (u.toNat / 16 ^ (31 - i) % 16)).all
      (fun ch => ch.isDigit || ('a' ≤ ch && ch ≤ 'f')) = true := by
    simp only [List.all_map, List.all_eq_true]
    exact fun i _ => hdigit _ (Nat.mod_lt _ (by decide))
  have hvalue : u.toNat % 16 ^ 32 = u.toNat := Nat.mod_eq_of_lt u.isLt
  simp only [parseHyphenated, filter_display]
  rw [if_pos ⟨by simp, hall⟩, foldl_digits 32 u.toNat, hvalue, BitVec.ofNat_toNat,
    BitVec.setWidth_eq]
/-- Whether a count of nanoseconds is an instant that chrono can hold. -/
def inRange (d : DateTime) : Prop := DateTime.minUtc ≤ d ∧ d ≤ DateTime.maxUtc

instance (d : DateTime) : Decidable (inRange d) := inferInstanceAs (Decidable (_ ∧ _))

/-- Right about hyphenated UUIDs, and about all instants but leap seconds. -/
def sample : Crates where
  parseStr := parseHyphenated
  display := Uuid.display
  fromTimestamp s n :=
    let d := s.toInt * 10 ^ 9 + n.toNat
    if n.toNat < 10 ^ 9 ∧ inRange d then some d else none
  fromTimestampMillis ms :=
    let d := ms.toInt * 10 ^ 6
    if inRange d then some d else none
  timestamp d := Int64.ofInt (d / 10 ^ 9)
  timestampSubsecNanos d := UInt32.ofNat (d % 10 ^ 9).toNat
  timestampMillis d := Int64.ofInt (d / 10 ^ 6)

theorem sample_fromTimestamp {s : Int64} {n : UInt32} {d : DateTime}
    (h : sample.fromTimestamp s n = some d) :
    n.toNat < 10 ^ 9 ∧ inRange d ∧ d = s.toInt * 10 ^ 9 + n.toNat := by
  simp only [sample, Option.ite_none_right_eq_some, Option.some.injEq] at h
  obtain ⟨⟨hn, hd⟩, rfl⟩ := h
  exact ⟨hn, hd, rfl⟩

theorem sample_timestamp {s : Int64} {n : UInt32} {d : DateTime}
    (h : sample.fromTimestamp s n = some d) : sample.timestamp d = s := by
  obtain ⟨hn, -, rfl⟩ := sample_fromTimestamp h
  have hdiv : (s.toInt * 10 ^ 9 + n.toNat) / 10 ^ 9 = s.toInt := by omega
  simp only [sample, hdiv, Int64.ofInt_toInt]

theorem sample_subsecNanos {s : Int64} {n : UInt32} {d : DateTime}
    (h : sample.fromTimestamp s n = some d) : sample.timestampSubsecNanos d = n := by
  obtain ⟨hn, -, rfl⟩ := sample_fromTimestamp h
  have hmod : ((s.toInt * 10 ^ 9 + n.toNat) % 10 ^ 9).toNat = n.toNat := by omega
  simp only [sample, hmod, UInt32.ofNat_toNat]

theorem sample_millis {ms : Int64} {d : DateTime}
    (h : sample.fromTimestampMillis ms = some d) : sample.timestampMillis d = ms := by
  simp only [sample, Option.ite_none_right_eq_some, Option.some.injEq] at h
  obtain ⟨-, rfl⟩ := h
  have hdiv : ms.toInt * 10 ^ 6 / 10 ^ 6 = ms.toInt := by omega
  simp only [sample, hdiv, Int64.ofInt_toInt]

theorem sample_lawful : sample.Lawful where
  parseStr_display u := by simp only [sample, parseHyphenated_display]
  timestamp_eq := sample_timestamp
  subsecNanos_eq := sample_subsecNanos
  nanos_lt h := (sample_fromTimestamp h).1.trans (by norm_num)
  millis_eq := sample_millis

theorem inRange_iff {d : ℤ} : inRange d ↔
    -8334601228800 * 10 ^ 9 ≤ d ∧ d ≤ 8210266876800 * 10 ^ 9 - 1 := Iff.rfl

/-- The sample has the instants that chrono can hold. -/
theorem sample_isDateTime_iff {d : ℤ} : sample.IsDateTime d ↔ inRange d := by
  constructor
  · rintro ⟨s, n, h⟩
    exact (sample_fromTimestamp h).2.1
  · intro hd
    obtain ⟨hmin, hmax⟩ := inRange_iff.mp hd
    have hs : (Int64.ofInt (d / 10 ^ 9)).toInt = d / 10 ^ 9 :=
      Int64.toInt_ofInt_of_le (by omega) (by omega)
    have hlt : (d % 10 ^ 9).toNat < 2 ^ 32 := by omega
    have hn : (UInt32.ofNat (d % 10 ^ 9).toNat).toNat = (d % 10 ^ 9).toNat :=
      UInt32.toNat_ofNat_of_lt' hlt
    refine ⟨Int64.ofInt (d / 10 ^ 9), UInt32.ofNat (d % 10 ^ 9).toNat, ?_⟩
    have hsum : d / 10 ^ 9 * 10 ^ 9 + ((d % 10 ^ 9).toNat : ℤ) = d := by omega
    simp only [sample, hs, hn, hsum]
    exact if_pos ⟨by omega, hd⟩

/-- Its whole milliseconds are the multiples of a million nanoseconds. -/
theorem sample_wholeMillis_iff {d : ℤ} :
    sample.WholeMillis d ↔ inRange d ∧ 10 ^ 6 ∣ d := by
  constructor
  · rintro ⟨ms, h⟩
    simp only [sample, Option.ite_none_right_eq_some, Option.some.injEq] at h
    obtain ⟨hd, rfl⟩ := h
    exact ⟨hd, Dvd.intro_left _ rfl⟩
  · rintro ⟨hd, k, rfl⟩
    obtain ⟨hmin, hmax⟩ := inRange_iff.mp hd
    have hk : (Int64.ofInt k).toInt = k := Int64.toInt_ofInt_of_le (by omega) (by omega)
    refine ⟨Int64.ofInt k, ?_⟩
    simp only [sample, hk, Int.mul_comm k]
    exact if_pos hd

end Crates

end ATP
