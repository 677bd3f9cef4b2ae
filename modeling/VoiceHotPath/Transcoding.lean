import VoiceHotPath.EnergyWords

/-!
# Transcoding

A sample that is encoded and decoded keeps its order among the samples and its
sign, and is then one of the decodable values, on which the code is exact.
-/

namespace VoiceHotPath

/-- A sample encoded by `encode_mulaw` and decoded by `kMulawTable`. -/
def transcode (sample : Int16) : Int16 :=
  mulawTable (encodeMulaw sample)

theorem toInt_transcode (sample : Int16) :
    (transcode sample).toInt = if sample.toInt < 0 then -(companded sample.toInt.natAbs : Int)
      else companded sample.toInt.natAbs := by
  rw [transcode, toInt_mulawTable, mulawToLinear_encodeMulaw]

/-! ## Order -/

theorem biased_mono {a b : Nat} (order : a ≤ b) : biased a ≤ biased b := by
  unfold biased
  split <;> split <;> omega

/-- A larger amplitude has no smaller exponent. -/
theorem exponentOf_mono {a b : Nat} (order : a ≤ b) : exponentOf a ≤ exponentOf b := by
  obtain ⟨-, least, -⟩ := exponentOf_spec a
  obtain ⟨-, -, most⟩ := exponentOf_spec b
  have octaves : 2 ^ (exponentOf a + 7) < 2 ^ (exponentOf b + 8) :=
    Nat.lt_of_le_of_lt (Nat.le_trans least (biased_mono order)) most
  have exponents := (Nat.pow_lt_pow_iff_right Nat.one_lt_two).mp octaves
  omega

/-- Within an octave the mantissa counts the sixteenths. -/
theorem mantissaOf_eq (amplitude : Nat) :
    mantissaOf amplitude + 16 = biased amplitude / 2 ^ (exponentOf amplitude + 3) := by
  obtain ⟨-, least, most⟩ := exponentOf_spec amplitude
  have positive := Nat.two_pow_pos (exponentOf amplitude + 3)
  have low : 16 ≤ biased amplitude / 2 ^ (exponentOf amplitude + 3) := by
    rw [Nat.le_div_iff_mul_le positive]
    calc 16 * 2 ^ (exponentOf amplitude + 3) = 2 ^ (exponentOf amplitude + 7) := by
          rw [Nat.pow_add 2 (exponentOf amplitude) 7, Nat.pow_add 2 (exponentOf amplitude) 3]
          omega
      _ ≤ biased amplitude := least
  have high : biased amplitude / 2 ^ (exponentOf amplitude + 3) < 32 := by
    rw [Nat.div_lt_iff_lt_mul positive]
    calc biased amplitude < 2 ^ (exponentOf amplitude + 8) := most
      _ = 32 * 2 ^ (exponentOf amplitude + 3) := by
          rw [Nat.pow_add 2 (exponentOf amplitude) 8, Nat.pow_add 2 (exponentOf amplitude) 3]
          omega
  unfold mantissaOf
  generalize biased amplitude / 2 ^ (exponentOf amplitude + 3) = sixteenths at low high
  omega

/-- The largest decodable value. -/
theorem companded_le (amplitude : Nat) : companded amplitude ≤ 32124 := by
  obtain ⟨most, -, -⟩ := exponentOf_spec amplitude
  have mantissa : mantissaOf amplitude < 16 := Nat.mod_lt _ (by decide)
  have scale : 2 ^ exponentOf amplitude ≤ 2 ^ 7 := Nat.pow_le_pow_right Nat.two_pos most
  have product : (8 * mantissaOf amplitude + 132) * 2 ^ exponentOf amplitude ≤ 252 * 2 ^ 7 :=
    Nat.mul_le_mul (by omega) scale
  unfold companded
  omega

theorem companded_mono {a b : Nat} (order : a ≤ b) : companded a ≤ companded b := by
  apply Nat.sub_le_sub_right
  rcases Nat.lt_or_eq_of_le (exponentOf_mono order) with below | same
  · -- The top of an octave decodes below the bottom of the next.
    have top : mantissaOf a < 16 := Nat.mod_lt _ (by decide)
    calc (8 * mantissaOf a + 132) * 2 ^ exponentOf a
        ≤ 252 * 2 ^ exponentOf a := Nat.mul_le_mul_right _ (by omega)
      _ ≤ 132 * 2 ^ (exponentOf a + 1) := by
          rw [Nat.pow_succ]
          omega
      _ ≤ 132 * 2 ^ exponentOf b :=
          Nat.mul_le_mul_left _ (Nat.pow_le_pow_right Nat.two_pos below)
      _ ≤ (8 * mantissaOf b + 132) * 2 ^ exponentOf b :=
          Nat.mul_le_mul_right _ (Nat.le_add_left _ _)
  · have sixteenths := mantissaOf_eq a
    have sixteenths' := mantissaOf_eq b
    have quotients := Nat.div_le_div_right (c := 2 ^ (exponentOf b + 3)) (biased_mono order)
    rw [same] at sixteenths ⊢
    exact Nat.mul_le_mul_right _ (by omega)

/-! ## The decodable values -/

/-- Every byte but negative zero is recovered from its value. -/
theorem encodeMulaw_mulawTable {byte : UInt8} (positive : byte ≠ 0x7f) :
    encodeMulaw (mulawTable byte) = byte := by
  have each : ∀ n : Fin 256, UInt8.ofNat n ≠ 0x7f →
      encodeMulaw (mulawTable (UInt8.ofNat n)) = UInt8.ofNat n := by
    decide +kernel
  have recovered := each ⟨byte.toNat, byte.toNat_lt⟩
  rw [UInt8.ofNat_toNat] at recovered
  exact recovered positive

/-- Mu-law coding of samples keeps their order and, but for the lowest one, their opposites; every
byte but negative zero is recovered from the sample it decodes to, and transcoding a sample twice
is transcoding it once. -/
theorem transcode_retraction :
    (∀ a b : Int16, a ≤ b → transcode a ≤ transcode b) ∧
      (∀ a : Int16, a.toInt ≠ -32768 → transcode (-a) = -transcode a) ∧
      (∀ byte : UInt8, byte ≠ 0x7f → encodeMulaw (mulawTable byte) = byte) ∧
      ∀ a : Int16, transcode (transcode a) = transcode a := by
  refine ⟨?_, ?_, fun _ => encodeMulaw_mulawTable, ?_⟩
  · intro a b order
    have numbers := Int16.le_iff_toInt_le.mp order
    rw [Int16.le_iff_toInt_le, toInt_transcode, toInt_transcode]
    split
    · split
      · have amplitudes : companded b.toInt.natAbs ≤ companded a.toInt.natAbs :=
          companded_mono (by omega)
        omega
      · omega
    · split
      · omega
      · have amplitudes : companded a.toInt.natAbs ≤ companded b.toInt.natAbs :=
          companded_mono (by omega)
        omega
  · intro a inside
    have least := a.le_toInt
    have most := a.toInt_lt
    have bound := companded_le a.toInt.natAbs
    have silent : a.toInt = 0 → companded a.toInt.natAbs = 0 := by
      intro zero
      rw [zero]
      decide +kernel
    have opposite : (-a).toInt = -a.toInt := by
      rw [Int16.toInt_neg]
      exact Int.bmod_eq_of_le_mul_two (by omega) (by omega)
    have coded := toInt_transcode a
    have turned : (-transcode a).toInt = -(transcode a).toInt := by
      rw [Int16.toInt_neg]
      split at coded <;> exact Int.bmod_eq_of_le_mul_two (by omega) (by omega)
    apply Int16.toInt_inj.mp
    rw [turned, coded, toInt_transcode, opposite, Int.natAbs_neg]
    split <;> split <;> omega
  · intro a
    by_cases negative : encodeMulaw a = 0x7f
    · have zero : transcode a = mulawTable 0x7f := congrArg mulawTable negative
      rw [zero]
      decide +kernel
    · exact congrArg mulawTable (encodeMulaw_mulawTable negative)

end VoiceHotPath
