import Mathlib.Tactic.Linarith

/-!
# The two MCP3221 drivers

`Zephyr` models the out-of-tree Zephyr sensor driver, `EspIdf` the ESP-IDF
component.  Both read two bytes over I2C and scale the twelve-bit sample by
the reference voltage: the Zephyr driver to microvolts, split in volts and
millionths, the ESP-IDF component to whole millivolts.  All products are
`uint32_t`.

* `raw_of_bytes` is the sample that both drivers keep.
* `channelGet_microvolts` is what the Zephyr conversion computes, with the
  wrap of its product, and `readVoltageMv_eq` the ESP-IDF conversion, whose
  product never wraps.
* `channelGet_exact_iff` is the comparison: the Zephyr reading is the exact
  one, and agrees with the ESP-IDF one, as long as its product fits 32 bits.
-/

namespace Winegrid.Mcp3221

/-- The twelve-bit sample in the two received bytes. -/
def sample (b0 b1 : UInt8) : Nat := b0.toNat % 16 * 256 + b1.toNat

/-- `((rx_buf[0] & 0x0F) << 8) | rx_buf[1]`, kept in a `uint16_t`. -/
def rawOfBytes (b0 b1 : UInt8) : UInt16 :=
  (b0 &&& 0x0F).toUInt16 <<< 8 ||| b1.toUInt16

/-- `BIT(MCP3221_RESOLUTION_BITS)`, twelve bits in both drivers. -/
def fullScale : UInt32 := (1 : UInt32) <<< (12 : UInt32)

theorem sample_lt (b0 b1 : UInt8) : sample b0 b1 < 4096 := by
  have h := b1.toNat_lt
  unfold sample
  omega

/-- Both drivers keep the sample: the two halves do not overlap. -/
theorem raw_of_bytes (b0 b1 : UInt8) : (rawOfBytes b0 b1).toNat = sample b0 b1 := by
  have h1 := b1.toNat_lt
  have h0 : b0.toNat &&& 15 = b0.toNat % 16 := Nat.and_two_pow_sub_one_eq_mod b0.toNat 4
  simp only [rawOfBytes, sample, UInt16.toNat_or, UInt16.toNat_shiftLeft, UInt8.toNat_toUInt16,
    UInt8.toNat_and, show (0x0F : UInt8).toNat = 15 from rfl,
    show (8 : UInt16).toNat % 16 = 8 from rfl, h0]
  rw [Nat.shiftLeft_eq, Nat.mod_eq_of_lt (by omega), Nat.mul_comm,
    ← Nat.two_pow_add_eq_or_of_lt h1, Nat.mul_comm]

/-! ## The Zephyr driver -/

namespace Zephyr

/-- The channels the driver tells apart. -/
inductive SensorChannel where
  | all
  | voltage
  | other
  deriving DecidableEq

/-- `-ENOTSUP`. -/
def ENOTSUP : Int := 134

structure Config where
  vrefMv : UInt16

structure Data where
  raw : UInt16

/-- What `i2c_read_dt` answers: its error code, and the bytes it received. -/
structure I2cRead where
  err : Int
  b0 : UInt8
  b1 : UInt8

structure SensorValue where
  val1 : Int32
  val2 : Int32
  deriving DecidableEq

/-- `mcp3221_sample_fetch`. -/
def sampleFetch (chan : SensorChannel) (bus : I2cRead) : Except Int Data :=
  if chan ≠ .all ∧ chan ≠ .voltage then
    .error (-ENOTSUP)
  else if bus.err < 0 then
    .error bus.err
  else
    .ok { raw := rawOfBytes bus.b0 bus.b1 }

/-- The microvolts that `mcp3221_channel_get` computes. -/
def microvolts (config : Config) (data : Data) : UInt32 :=
  data.raw.toUInt32 * config.vrefMv.toUInt32 * 1000 / fullScale

/-- `mcp3221_channel_get`. -/
def channelGet (config : Config) (data : Data) (chan : SensorChannel) :
    Except Int SensorValue :=
  if chan ≠ .voltage then
    .error (-ENOTSUP)
  else
    let microvolts := microvolts config data
    .ok { val1 := (microvolts / 1000000).toInt32, val2 := (microvolts % 1000000).toInt32 }

/-- A successful fetch stores the sample of the bytes it received. -/
theorem sampleFetch_ok {chan : SensorChannel} {bus : I2cRead} {data : Data}
    (h : sampleFetch chan bus = .ok data) : data.raw.toNat = sample bus.b0 bus.b1 := by
  unfold sampleFetch at h
  split_ifs at h
  cases h
  exact raw_of_bytes bus.b0 bus.b1

/-- The product wraps at 32 bits before it is divided. -/
theorem microvolts_toNat (config : Config) (data : Data) :
    (microvolts config data).toNat
      = data.raw.toNat * config.vrefMv.toNat * 1000 % 2 ^ 32 / 4096 := by
  simp only [microvolts, UInt32.toNat_div, UInt32.toNat_mul, UInt16.toNat_toUInt32,
    show (1000 : UInt32).toNat = 1000 from rfl,
    show fullScale.toNat = 4096 from rfl, Nat.mod_mul_mod]

private theorem toInt_toInt32 {x : UInt32} (h : x.toNat < 2 ^ 31) :
    x.toInt32.toInt = x.toNat := by
  have hx : x.toInt32.toInt = (x.toNat : Int).bmod (2 ^ 32) :=
    BitVec.toInt_eq_toNat_bmod x.toBitVec
  rw [hx]
  exact Int.bmod_eq_of_le (by omega) (by omega)

/-- The two halves of a reading are the microvolts divided by a million, and
the rest. -/
theorem channelGet_val {config : Config} {data : Data} {val : SensorValue}
    (h : channelGet config data .voltage = .ok val) :
    val.val1.toInt = ((microvolts config data).toNat / 1000000 : Nat) ∧
      val.val2.toInt = ((microvolts config data).toNat % 1000000 : Nat) := by
  have hlt := (microvolts config data).toNat_lt
  have hdiv : (microvolts config data / 1000000).toNat
      = (microvolts config data).toNat / 1000000 := UInt32.toNat_div _ _
  have hmod : (microvolts config data % 1000000).toNat
      = (microvolts config data).toNat % 1000000 := UInt32.toNat_mod _ _
  simp only [channelGet, ne_eq, not_true_eq_false, if_false, Except.ok.injEq] at h
  subst h
  constructor
  · rw [toInt_toInt32 (by omega), hdiv]
  · rw [toInt_toInt32 (by omega), hmod]

/-- The fraction of a reading is between zero and a million, wrap or no wrap. -/
theorem channelGet_val2_range {config : Config} {data : Data} {val : SensorValue}
    (h : channelGet config data .voltage = .ok val) :
    0 ≤ val.val2.toInt ∧ val.val2.toInt < 1000000 := by
  rw [(channelGet_val h).2]
  omega

/-- A reading, put back together in microvolts. -/
theorem channelGet_microvolts {config : Config} {data : Data} {val : SensorValue}
    (h : channelGet config data .voltage = .ok val) :
    val.val1.toInt * 1000000 + val.val2.toInt
      = (data.raw.toNat * config.vrefMv.toNat * 1000 % 2 ^ 32 / 4096 : Nat) := by
  obtain ⟨h1, h2⟩ := channelGet_val h
  rw [h1, h2, ← microvolts_toNat]
  omega

end Zephyr

/-! ## The ESP-IDF component -/

namespace EspIdf

/-- The `esp_err_t` values that the component handles. -/
inductive EspErr where
  | ok
  | invalidArg
  | other (code : Int)
  deriving DecidableEq

structure Dev where
  vrefMv : UInt16

/-- What `i2c_master_receive` answers. -/
structure I2cRead where
  err : EspErr
  b0 : UInt8
  b1 : UInt8

/-- `mcp3221_read_raw`.  A handle may be NULL; the place for the sample is
not, in its one call. -/
def readRaw (handle : Option Dev) (bus : I2cRead) : Except EspErr UInt16 :=
  match handle with
  | none => .error .invalidArg
  | some _ =>
    if bus.err ≠ .ok then .error bus.err else .ok (rawOfBytes bus.b0 bus.b1)

/-- `mcp3221_read_voltage_mv`. -/
def readVoltageMv (handle : Option Dev) (bus : I2cRead) : Except EspErr UInt32 :=
  match handle with
  | none => .error .invalidArg
  | some dev =>
    match readRaw handle bus with
    | .error err => .error err
    | .ok raw => .ok (raw.toUInt32 * dev.vrefMv.toUInt32 / fullScale)

/-- A successful read is the exact scaling, rounded down: its product always
fits 32 bits. -/
theorem readVoltageMv_eq (dev : Dev) (b0 b1 : UInt8) :
    ∃ mv, readVoltageMv (some dev) ⟨.ok, b0, b1⟩ = .ok mv ∧
      mv.toNat = sample b0 b1 * dev.vrefMv.toNat / 4096 := by
  refine ⟨_, rfl, ?_⟩
  have hs := sample_lt b0 b1
  have hv := dev.vrefMv.toNat_lt
  have hprod : sample b0 b1 * dev.vrefMv.toNat < 2 ^ 32 := by
    calc sample b0 b1 * dev.vrefMv.toNat
        ≤ 4096 * 2 ^ 16 := Nat.mul_le_mul (by omega) (by omega)
      _ < 2 ^ 32 := by norm_num
  rw [UInt32.toNat_div, UInt32.toNat_mul, UInt16.toNat_toUInt32, UInt16.toNat_toUInt32,
    raw_of_bytes, Nat.mod_eq_of_lt hprod]
  rfl

end EspIdf

/-! ## The comparison -/

/-- A microvolt product that does not fit 32 bits loses at least `2 ^ 20`
microvolts. -/
private theorem wrapped_div_ne {p : Nat} (h : 2 ^ 32 ≤ p) : p % 2 ^ 32 / 4096 ≠ p / 4096 := by
  omega

/-- The Zephyr reading of `data` is the exact one of the sample, and in whole
millivolts the one of the ESP-IDF component on the same bytes. -/
def ExactReading (vrefMv : UInt16) (data : Zephyr.Data) (b0 b1 : UInt8) : Prop :=
  ∃ val, Zephyr.channelGet ⟨vrefMv⟩ data .voltage = .ok val ∧
    0 ≤ val.val2.toInt ∧ val.val2.toInt < 1000000 ∧
    val.val1.toInt * 1000000 + val.val2.toInt
      = (sample b0 b1 * vrefMv.toNat * 1000 / 4096 : Nat) ∧
    ∃ mv, EspIdf.readVoltageMv (some ⟨vrefMv⟩) ⟨.ok, b0, b1⟩ = .ok mv ∧
      (val.val1.toInt * 1000000 + val.val2.toInt) / 1000 = mv.toNat

/-- After a successful fetch the reading is exact if and only if the product
`raw * vref_mv * 1000` fits a `uint32_t`. -/
theorem channelGet_exact_iff {chan : Zephyr.SensorChannel} {bus : Zephyr.I2cRead}
    {data : Zephyr.Data} (hfetch : Zephyr.sampleFetch chan bus = .ok data) (vrefMv : UInt16) :
    ExactReading vrefMv data bus.b0 bus.b1 ↔
      sample bus.b0 bus.b1 * vrefMv.toNat * 1000 < 2 ^ 32 := by
  have hraw := Zephyr.sampleFetch_ok hfetch
  constructor
  · rintro ⟨val, hval, -, -, hsum, -⟩
    rw [Zephyr.channelGet_microvolts hval, hraw] at hsum
    by_contra hwrap
    exact wrapped_div_ne (by omega) (Int.ofNat_inj.mp hsum)
  · intro hfit
    obtain ⟨val, hval⟩ : ∃ val, Zephyr.channelGet ⟨vrefMv⟩ data .voltage = .ok val := ⟨_, rfl⟩
    obtain ⟨hlo, hhi⟩ := Zephyr.channelGet_val2_range hval
    obtain ⟨mv, hmv, hmvNat⟩ := EspIdf.readVoltageMv_eq ⟨vrefMv⟩ bus.b0 bus.b1
    have hsum := Zephyr.channelGet_microvolts hval
    rw [hraw, Nat.mod_eq_of_lt hfit] at hsum
    refine ⟨val, hval, hlo, hhi, hsum, mv, hmv, ?_⟩
    rw [hsum, hmvNat]
    have hdiv : sample bus.b0 bus.b1 * vrefMv.toNat * 1000 / 4096 / 1000
        = sample bus.b0 bus.b1 * vrefMv.toNat / 4096 := by
      rw [Nat.div_div_eq_div_mul, Nat.mul_div_mul_right _ _ (by norm_num)]
    exact_mod_cast hdiv

/-- A quarter of full scale at the default reference of 3300 mV: the product fits. -/
theorem channelGet_exact_low :
    ExactReading 3300 ⟨1024⟩ 0x04 0x00 :=
  have hfetch : Zephyr.sampleFetch .all ⟨0, 0x04, 0x00⟩ = .ok ⟨1024⟩ := rfl
  (channelGet_exact_iff hfetch 3300).mpr (by decide)

/-- Full scale at 3300 mV: the driver reads 0.153466 V, not 3.299194 V. -/
theorem channelGet_full_scale :
    ¬ ∀ (bus : Zephyr.I2cRead) (data : Zephyr.Data) (vrefMv : UInt16),
        Zephyr.sampleFetch .all bus = .ok data → ExactReading vrefMv data bus.b0 bus.b1 := by
  intro h
  obtain ⟨val, hval, -, -, hsum, -⟩ := h ⟨0, 0x0F, 0xFF⟩ ⟨4095⟩ 3300 rfl
  obtain rfl : val = ⟨0, 153466⟩ := by
    have hread : Zephyr.channelGet ⟨3300⟩ ⟨4095⟩ .voltage = .ok ⟨0, 153466⟩ := by rfl
    rw [hread] at hval
    cases hval
    rfl
  exact absurd hsum (by decide)

end Winegrid.Mcp3221
