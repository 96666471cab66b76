import Winegrid.Lib.TextEncoding
import Winegrid.ThingsBoard.Chunks

/-!
# A release and its announcement

A `Release` is an image with the attributes that describe it.  A payload
announces it when its attributes say so, in any order and among any others.

* `Says` is what a list of attributes says about one key.
* `applyAttributes_good` carries a property of the description through the
  loop of `handle_attributes_payload`.
* `announced_matches`: after the announcement the description is that of the
  release.
* `offer_starts`: an idle client that gets the announcement starts to
  download.
-/

namespace Winegrid.ThingsBoard

open Esp Client

variable {P : Platform} {c : Client} {o : Outcomes} {r : Release}

/-! ## Releases -/

structure Release where
  image : Bytes
  version : Bytes
  checksum : Bytes
  checksumAlgorithm : Bytes

/-- The description fits the image: a version that fits its array, the digest
in hex of any case, the one algorithm there is, and room for the image in a
slot. -/
structure Release.Genuine (P : Platform) (r : Release) : Prop where
  image_ne : r.image ≠ []
  image_le : r.image.length ≤ P.partitionSize
  version_ne : r.version ≠ []
  version_lt : r.version.length < 32
  digest : (P.sha256 r.image).length = 32
  checksum : strcaseeq (hexLower (P.sha256 r.image)) r.checksum = true
  algorithm : strcaseeq r.checksumAlgorithm (ascii "SHA256") = true

/-- The variables describe the release. -/
structure Matches (fw : FwInfo) (r : Release) : Prop where
  version : fw.version = r.version
  size : fw.size.toInt = r.image.length
  infoKnown : fw.infoKnown = true
  checksum : fw.checksum = r.checksum
  algorithm : fw.checksumAlgorithm = r.checksumAlgorithm

/-- Every attribute `key` is `value`, and there is one. -/
def Says (items : List (Option Bytes × CJson)) (key : Bytes) (value : CJson) : Prop :=
  (some key, value) ∈ items ∧ ∀ other, (some key, other) ∈ items → other = value

/-- The payload is a JSON document whose attributes are those of the release,
and maybe others. -/
structure Announces (P : Platform) (r : Release) (payload : Bytes) (root : CJson) : Prop where
  parse : P.parse payload = some root
  named : ∀ item ∈ (container root).children, item.1 ≠ none
  version : Says (container root).children (ascii "fw_version") (.string r.version)
  size : Says (container root).children (ascii "fw_size")
    (.number (Int32.ofNat r.image.length))
  checksum : Says (container root).children (ascii "fw_checksum") (.string r.checksum)
  algorithm : Says (container root).children (ascii "fw_checksum_algorithm")
    (.string r.checksumAlgorithm)

/-! ## Strings -/

theorem strcaseeq_length {a b : Bytes} (h : strcaseeq a b = true) : a.length = b.length := by
  have hmap : a.map toLower = b.map toLower := eq_of_beq h
  simpa using congrArg List.length hmap

/-! ## The loop over the attributes -/

/-- A property of the description that one attribute establishes, and none
destroys. -/
theorem applyAttributes_good {good : FwInfo → Prop} {items : List (Option Bytes × CJson)}
    (hhalt : c.halt = none) (hnamed : ∀ item ∈ items, item.1 ≠ none)
    (hkeep : ∀ key value, (some key, value) ∈ items → ∀ fw, good fw →
      good (applyFwAttribute fw key value))
    (hset : good c.fw ∨ ∃ key value, (some key, value) ∈ items ∧
      ∀ fw, good (applyFwAttribute fw key value)) :
    good (c.applyAttributes items).fw ∧ (c.applyAttributes items).halt = none := by
  induction items generalizing c with
  | nil => exact ⟨hset.resolve_right (by simp), hhalt⟩
  | cons item items ih =>
    rcases item with ⟨_ | key, value⟩
    · exact absurd rfl (hnamed _ List.mem_cons_self)
    · have hnot : c.halt.isSome = false := by rw [hhalt]; rfl
      rw [applyAttributes, List.foldl_cons, hnot]
      refine ih hhalt (fun item hitem => hnamed item (List.mem_cons_of_mem _ hitem))
        (fun k v hkv => hkeep k v (List.mem_cons_of_mem _ hkv)) ?_
      rcases hset with hgood | ⟨k, v, hkv, hgood⟩
      · exact Or.inl (hkeep key value List.mem_cons_self c.fw hgood)
      · rcases List.mem_cons.mp hkv with heq | hkv
        · obtain ⟨hkey, rfl⟩ := Prod.mk.inj heq
          obtain rfl := Option.some.inj hkey
          exact Or.inl (hgood c.fw)
        · exact Or.inr ⟨k, v, hkv, hgood⟩

/-- The same for a property that only `key` decides. -/
theorem says_good (good : FwInfo → Prop) {items : List (Option Bytes × CJson)} {key : Bytes}
    {value : CJson} (hhalt : c.halt = none) (hnamed : ∀ item ∈ items, item.1 ≠ none)
    (hsaid : Says items key value) (hset : ∀ fw, good (applyFwAttribute fw key value))
    (hother : ∀ k v fw, k ≠ key → good fw → good (applyFwAttribute fw k v)) :
    good (c.applyAttributes items).fw ∧ (c.applyAttributes items).halt = none := by
  refine applyAttributes_good hhalt hnamed (fun k v hmem fw hgood => ?_)
    (Or.inr ⟨key, value, hsaid.1, hset⟩)
  by_cases hkey : k = key
  · subst hkey
    rw [hsaid.2 v hmem]
    exact hset fw
  · exact hother k v fw hkey hgood

/-- An attribute leaves the variables of the other keys. -/
structure LeavesOthers (fw fw' : FwInfo) (key : Bytes) : Prop where
  version : key ≠ ascii "fw_version" → fw'.version = fw.version
  size : key ≠ ascii "fw_size" → fw'.size = fw.size ∧ fw'.infoKnown = fw.infoKnown
  checksum : key ≠ ascii "fw_checksum" → fw'.checksum = fw.checksum
  algorithm : key ≠ ascii "fw_checksum_algorithm" → fw'.checksumAlgorithm = fw.checksumAlgorithm

theorem applyFwAttribute_leavesOthers (fw : FwInfo) (key : Bytes) (value : CJson) :
    LeavesOthers fw (applyFwAttribute fw key value) key := by
  rw [applyFwAttribute_eq]
  exact ⟨fun h => atKey_of_ne h _ _, fun h => ⟨atKey_of_ne h _ _, atKey_of_ne h _ _⟩,
    fun h => atKey_of_ne h _ _, fun h => atKey_of_ne h _ _⟩

/-- After the announcement the variables describe the release. -/
theorem announced_matches {payload : Bytes} {root : CJson} (hgenuine : r.Genuine P)
    (h : Announces P r payload root) (hhalt : c.halt = none) :
    Matches (c.applyAttributes (container root).children).fw r ∧
      (c.applyAttributes (container root).children).halt = none := by
  have hothers := fun fw k v => applyFwAttribute_leavesOthers fw k v
  have hchecksum : r.checksum.length < 65 := by
    rw [← strcaseeq_length hgenuine.checksum, hexLower_length, hgenuine.digest]
    decide
  have halgorithm : r.checksumAlgorithm.length < 16 := by
    rw [strcaseeq_length hgenuine.algorithm]
    decide
  have hlen := P.partitionSize_lt
  have hsize : (Int32.ofNat r.image.length).toInt = r.image.length :=
    Int32.toInt_ofNat_of_lt (by have := hgenuine.image_le; omega)
  obtain ⟨hv, hhalt'⟩ := says_good (fun fw => fw.version = r.version) hhalt h.named
    h.version (fun fw => strncpy_eq_self hgenuine.version_lt)
    (fun k v fw hk hgood => ((hothers fw k v).version hk).trans hgood)
  obtain ⟨⟨hs, hk⟩, -⟩ := says_good
    (fun fw => fw.size.toInt = r.image.length ∧ fw.infoKnown = true) hhalt h.named
    h.size (fun fw => ⟨hsize, rfl⟩) (fun k v fw hk hgood => by
      obtain ⟨hsame, hknown⟩ := (hothers fw k v).size hk
      rw [hsame, hknown]
      exact hgood)
  obtain ⟨hc, -⟩ := says_good (fun fw => fw.checksum = r.checksum) hhalt h.named
    h.checksum (fun fw => strncpy_eq_self hchecksum)
    (fun k v fw hk hgood => ((hothers fw k v).checksum hk).trans hgood)
  obtain ⟨ha, -⟩ := says_good (fun fw => fw.checksumAlgorithm = r.checksumAlgorithm) hhalt
    h.named h.algorithm (fun fw => strncpy_eq_self halgorithm)
    (fun k v fw hk hgood => ((hothers fw k v).algorithm hk).trans hgood)
  exact ⟨⟨hv, hs, hk, hc, ha⟩, hhalt'⟩

/-! ## The offer -/

/-- Every call of the flash library succeeds. -/
structure Outcomes.Succeed (o : Outcomes) : Prop where
  partition : o.partition = true
  otaBegin : o.otaBegin = true
  otaWrite : o.otaWrite = true
  otaEnd : o.otaEnd = true
  setBoot : o.setBoot = true

theorem allOk_succeed : allOk.Succeed := ⟨rfl, rfl, rfl, rfl, rfl⟩

/-- An idle client that gets the announcement of a version that is new to it
starts to download. -/
theorem offer_starts {topic payload : Bytes} {root : CJson} (hgenuine : r.Genuine P)
    (hannounces : Announces P r payload root) (hhalt : c.halt = none)
    (hidle : c.dl.inProgress = false) (hnew : r.version ≠ c.build.version)
    (hfailed : c.journal.disk.nvs .failedFw ≠ some r.version) (ho : o.Succeed)
    (htopic : startsWith topic fwTopicPrefix = false)
    (hrpc : startsWith topic rpcRequestTopicPrefix = false) :
    ∃ d, Matches d.fw r ∧ (∃ interval fw, d = { c with publishIntervalMs := interval, fw := fw }) ∧
      mqttEventHandler P c o (.data topic payload) =
        (d.setPartition (some c.slot.other)).beginDownload c.slot.other := by
  obtain ⟨hmatches, hhalt'⟩ := announced_matches hgenuine hannounces hhalt
  obtain ⟨interval, fw, halt, heq⟩ := applyAttributes_frame c (container root).children
  have hstill : (c.applyAttributes (container root).children).halt.isSome = false := by
    rw [hhalt']
    rfl
  have hd : c.applyAttributes (container root).children =
      { c with publishIntervalMs := interval, fw := fw } := by
    rw [heq] at hhalt' ⊢
    obtain rfl : halt = none := hhalt'
    rw [← hhalt]
  have hwants : (c.applyAttributes (container root).children).wantsUpdate = true := by
    have hpos : 0 < r.version.length := List.length_pos_iff.mpr hgenuine.version_ne
    simp only [wantsUpdate, hmatches.infoKnown, hmatches.version, applyAttributes_dl,
      applyAttributes_build, hidle, Bool.not_false, Bool.and_self, Bool.true_and,
      Bool.and_eq_true, decide_eq_true_eq, bne_iff_ne]
    exact ⟨hpos, hnew⟩
  have hstarts : StartsDownload (c.applyAttributes (container root).children) o := by
    refine ⟨fun hload => hfailed ?_, ho.partition, ho.otaBegin⟩
    rw [applyAttributes_journal, hmatches.version] at hload
    exact (loadNvsStr_eq_some.mp hload).1
  have hslot : (c.applyAttributes (container root).children).slot = c.slot := by rw [hd]
  refine ⟨_, hmatches, ⟨interval, fw, hd⟩, ?_⟩
  rw [mqttEventHandler, htopic, hrpc, if_neg (by decide), if_neg (by decide),
    handleAttributesPayload, hannounces.parse]
  simp only [hstill, hwants, Bool.false_eq_true, if_false, if_true]
  rcases startFwUpdate_cases (c.applyAttributes (container root).children) o with
    ⟨hnot, -⟩ | ⟨-, hstart⟩
  · exact absurd hstarts hnot
  · rw [hstart, hslot]

end Winegrid.ThingsBoard
