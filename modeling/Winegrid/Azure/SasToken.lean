import Winegrid.Lib.TextEncoding
import Winegrid.Lib.Decimal
import Mathlib.Tactic.SplitIfs

/-!
# SAS tokens

The part of `esp-idf-azure-dps/main/app_main.c` that signs: the effective
symmetric key of the two kinds of enrollment, `url_encode`, and
`build_sas_token` with its four buffers.  `Mbedtls` stands for the library.

* `urlEncode_exact`: what `url_encode` writes stays in its buffer, decodes to a
  beginning of the text, and is all of it when there is room.
* `urlEncode_eq_iff`: the buffer of `url_encode` holds the whole text exactly
  when all but the last byte leave room for four more.
* `sasToken_exact_iff`: a token is the one that Azure expects exactly when the
  uri, the signature and the token fit their buffers.
* `malformedKey_rejected_iff`: a malformed key is rejected exactly when
  nothing stands between the configured string and `build_sas_token`.
-/

namespace Winegrid.Azure

/-! ## The library -/

/-- What the firmware uses of mbedTLS.  `base64Decode` is what a string
encodes, or nothing when it has an invalid character. -/
structure Mbedtls where
  base64Decode : Bytes → Option Bytes
  hmacSha256 : Bytes → Bytes → Bytes
  decode_encode : ∀ bytes, base64Decode (Base64.encode bytes) = some bytes
  hmac_length : ∀ key message, (hmacSha256 key message).length = 32

/-- `sizeof(key)` and `sizeof(group_key)`. -/
def keySize : Nat := 64

/-- What a call of `mbedtls_base64_decode` leaves: whether it answered 0, the
length it stored, and the memory from the start of the destination on. -/
structure Decoding where
  ok : Bool
  keyLen : Nat
  memory : Bytes

/-- A call of `mbedtls_md_hmac`: the bytes it reads as the key, their number,
and the message. -/
structure HmacCall where
  key : Bytes
  keyLen : Nat
  message : Bytes
  deriving DecidableEq

/-- `mbedtls_base64_decode(key, sizeof(key), &key_len, ...)` with `key_len`
0 and `memory` from `key` on. -/
def Mbedtls.decodeKey (M : Mbedtls) (memory src : Bytes) : Decoding :=
  match M.base64Decode src with
  | none => ⟨false, 0, memory⟩
  | some key =>
    if key.length ≤ keySize then ⟨true, key.length, key ++ memory.drop key.length⟩
    else ⟨false, key.length, memory⟩

/-- The call of `mbedtls_md_hmac` with a decoded key. -/
def Decoding.hmacCall (d : Decoding) (message : Bytes) : HmacCall :=
  ⟨d.memory.take d.keyLen, d.keyLen, message⟩

/-- The 44 characters of a digest, which fit the two buffers they go to. -/
def Mbedtls.digestBase64 (M : Mbedtls) (call : HmacCall) : Bytes :=
  Base64.encode (M.hmacSha256 call.key call.message)

/-! ## The effective key -/

/-- `CONFIG_AZURE_DPS_USE_GROUP_ENROLLMENT`, `CONFIG_AZURE_DPS_SYMMETRIC_KEY`
and `CONFIG_AZURE_DPS_REGISTRATION_ID`. -/
structure DpsConfig where
  useGroupEnrollment : Bool
  symmetricKey : Bytes
  registrationId : Bytes

/-- `derive_group_device_key`.  It does not look at what the decoding
answered. -/
def deriveGroupDeviceKey (M : Mbedtls) (memory groupKey registrationId : Bytes) :
    Bytes × HmacCall :=
  let call := (M.decodeKey memory groupKey).hmacCall registrationId
  (M.digestBase64 call, call)

/-- `init_effective_symmetric_key`: the key, and the calls of
`mbedtls_md_hmac` it took. -/
def initEffectiveSymmetricKey (M : Mbedtls) (memory : Bytes) (config : DpsConfig) :
    Bytes × List HmacCall :=
  if config.useGroupEnrollment then
    let r := deriveGroupDeviceKey M memory config.symmetricKey config.registrationId
    (r.1, [r.2])
  else (strncpy 128 config.symmetricKey, [])

/-! ## The token -/

/-- The loop of `url_encode`, with what `dst` holds so far. -/
def urlEncodeFrom (dstSize : Nat) : Bytes → Bytes → Bytes
  | [], dst => dst
  | c :: src, dst =>
    if dst.length + 4 < dstSize then urlEncodeFrom dstSize src (dst ++ percentByte c) else dst

/-- `url_encode`. -/
def urlEncode (dstSize : Nat) (src : Bytes) : Bytes := urlEncodeFrom dstSize src []

def sasTokenValiditySeconds : Int32 := 3600

/-- The two formats of the token. -/
def tokenText (uri sig se : Bytes) : Option Bytes → Bytes
  | some policyName =>
    ascii "SharedAccessSignature sr=" ++ uri ++ ascii "&sig=" ++ sig ++ ascii "&se=" ++ se ++
      ascii "&skn=" ++ policyName
  | none => ascii "SharedAccessSignature sr=" ++ uri ++ ascii "&sig=" ++ sig ++ ascii "&se=" ++ se

/-- `build_sas_token` at `time(NULL)`: the token, when it returns true, and the
calls of `mbedtls_md_hmac`. -/
def buildSasToken (M : Mbedtls) (memory effectiveKey resourceUri : Bytes)
    (policyName : Option Bytes) (outSize : Nat) (time : Int64) : Option Bytes × List HmacCall :=
  let d := M.decodeKey memory effectiveKey
  if d.ok then
    let expiry := time.toInt32 + sasTokenValiditySeconds
    let encodedUri := urlEncode 192 resourceUri
    let call := d.hmacCall (snprintf 256 (encodedUri ++ 10 :: dec expiry.toInt))
    let encodedSig := urlEncode 96 (M.digestBase64 call)
    let out := snprintf outSize (tokenText encodedUri encodedSig (dec expiry.toInt) policyName)
    (some out, [call])
  else (none, [])

/-! ## The buffer of `url_encode` -/

theorem urlEncodeFrom_front (dstSize : Nat) (src dst : Bytes) :
    ∃ front, front <+: src ∧ urlEncodeFrom dstSize src dst = dst ++ percentEncode front := by
  induction src generalizing dst with
  | nil => exact ⟨[], List.prefix_refl [], by simp [urlEncodeFrom]⟩
  | cons c src ih =>
    rw [urlEncodeFrom]
    split_ifs
    · obtain ⟨front, hfront, heq⟩ := ih (dst ++ percentByte c)
      refine ⟨c :: front, List.cons_prefix_cons.mpr ⟨rfl, hfront⟩, ?_⟩
      rw [heq, percentEncode_cons, List.append_assoc]
    · exact ⟨[], List.nil_prefix, by simp⟩

/-- `url_encode` writes whole encoded bytes, of a beginning of the text. -/
theorem urlEncode_front (dstSize : Nat) (src : Bytes) :
    ∃ front, front <+: src ∧ urlEncode dstSize src = percentEncode front :=
  urlEncodeFrom_front dstSize src []

/-- What `url_encode` writes is the beginning of the encoded text. -/
theorem urlEncode_prefix_percentEncode (dstSize : Nat) (src : Bytes) :
    urlEncode dstSize src <+: percentEncode src := by
  obtain ⟨front, ⟨rest, hsplit⟩, heq⟩ := urlEncode_front dstSize src
  rw [heq, ← hsplit, percentEncode_append]
  exact List.prefix_append _ _

/-- The text and its NUL stay inside `dst`. -/
theorem urlEncodeFrom_length {dstSize : Nat} (src : Bytes) {dst : Bytes}
    (h : dst.length < dstSize) : (urlEncodeFrom dstSize src dst).length < dstSize := by
  induction src generalizing dst with
  | nil => exact h
  | cons c src ih =>
    rw [urlEncodeFrom]
    split_ifs with hroom
    · refine ih ?_
      have hbyte := percentByte_length_le c
      rw [List.length_append]
      omega
    · exact h

/-- All but the last byte leave room for four more. -/
def EncodingFits (dstSize : Nat) (src : Bytes) : Prop :=
  src = [] ∨ (percentEncode src.dropLast).length + 4 < dstSize

instance (dstSize : Nat) (src : Bytes) : Decidable (EncodingFits dstSize src) := by
  unfold EncodingFits
  infer_instance

theorem urlEncodeFrom_eq_iff (dstSize : Nat) (src dst : Bytes) :
    urlEncodeFrom dstSize src dst = dst ++ percentEncode src ↔
      src = [] ∨ (dst ++ percentEncode src.dropLast).length + 4 < dstSize := by
  induction src generalizing dst with
  | nil => simp [urlEncodeFrom]
  | cons c src ih =>
    rw [urlEncodeFrom, percentEncode_cons]
    have hbyte := percentByte_length_pos c
    by_cases hroom : dst.length + 4 < dstSize
    · rw [if_pos hroom, ← List.append_assoc, ih]
      rcases src with _ | ⟨c', src⟩
      · simp [hroom]
      · simp [List.dropLast_cons_cons]
    · -- The loop ends here, before the byte `c`.
      rw [if_neg hroom]
      constructor
      · intro h
        have hlen := congrArg List.length h
        simp only [List.length_append] at hlen
        omega
      · rintro (h | h)
        · cases h
        · rw [List.length_append] at h
          omega

/-- `url_encode` writes the whole text exactly when it fits. -/
theorem urlEncode_eq_iff {dstSize : Nat} {src : Bytes} :
    urlEncode dstSize src = percentEncode src ↔ EncodingFits dstSize src := by
  simpa [urlEncode, EncodingFits] using urlEncodeFrom_eq_iff dstSize src []

theorem encodingFits_of_length {dstSize : Nat} {src : Bytes}
    (h : (percentEncode src).length + 4 ≤ dstSize) : EncodingFits dstSize src := by
  rcases src.eq_nil_or_concat with hnil | ⟨front, b, hsrc⟩
  · exact Or.inl hnil
  · have hbyte := percentByte_length_pos b
    rw [List.concat_eq_append] at hsrc
    subst hsrc
    rw [percentEncode_append, List.length_append, percentEncode_cons, List.length_append] at h
    refine Or.inr ?_
    rw [List.dropLast_concat]
    omega

/-- `url_encode` stays inside `dst`, what it writes are unreserved characters
and whole triples that decode to a beginning of the text, and texts that leave
room for four more bytes are written in full, so that no two of them are
confused. -/
theorem urlEncode_exact {dstSize : Nat} (hsize : 1 ≤ dstSize) (src : Bytes) :
    (urlEncode dstSize src).length + 1 ≤ dstSize ∧
      PercentText (urlEncode dstSize src) ∧
      (∃ front, front <+: src ∧ percentDecode (urlEncode dstSize src) = some front) ∧
      ((percentEncode src).length + 4 ≤ dstSize →
        urlEncode dstSize src = percentEncode src ∧
        ∀ other, (percentEncode other).length + 4 ≤ dstSize →
          urlEncode dstSize other = urlEncode dstSize src → other = src) := by
  obtain ⟨front, hfront, heq⟩ := urlEncode_front dstSize src
  refine ⟨urlEncodeFrom_length src hsize, ?_, ⟨front, hfront, ?_⟩, ?_⟩
  · rw [heq]
    exact percentText_percentEncode front
  · rw [heq]
    exact percentDecode_percentEncode front
  · intro hlen
    have hwhole := urlEncode_eq_iff.mpr (encodingFits_of_length hlen)
    refine ⟨hwhole, fun other hother hsame => ?_⟩
    rw [hwhole, urlEncode_eq_iff.mpr (encodingFits_of_length hother)] at hsame
    exact percentEncode_inj hsame

/-- Sixteen bytes hold the encoding of `a/b`. -/
theorem urlEncode_exact_sample :
    urlEncode 16 (ascii "a/b") = ascii "a%2Fb" ∧ PercentText (urlEncode 16 (ascii "a/b")) ∧
      urlEncode 16 (ascii "a-b") ≠ ascii "a%2Fb" := by
  have hsize : 1 ≤ 16 := by decide
  obtain ⟨-, htext, -, hwhole⟩ := urlEncode_exact hsize (ascii "a/b")
  obtain ⟨heq, hinj⟩ := hwhole (by decide)
  refine ⟨heq.trans (by decide), htext, ?_⟩
  intro hsame
  have hother := hinj (ascii "a-b") (by decide) (hsame.trans (by decide))
  exact absurd hother (by decide)

/-! ## The token -/

/-- The string encodes a key that fits its buffer. -/
def ValidKey (M : Mbedtls) (s : Bytes) : Prop :=
  ∃ key, M.base64Decode s = some key ∧ key.length ≤ keySize

variable {M : Mbedtls} {memory effectiveKey uri key token : Bytes} {policyName : Option Bytes}
  {outSize : Nat} {time : Int64}

/-- `se`, as a number. -/
def sasExpiry (time : Int64) : Int32 := time.toInt32 + sasTokenValiditySeconds

/-- The signature over an encoded uri. -/
def sasSignature (M : Mbedtls) (key encodedUri : Bytes) (expiry : Int32) : Bytes :=
  Base64.encode (M.hmacSha256 key (encodedUri ++ 10 :: dec expiry.toInt))

/-- The token that Azure expects: every component whole. -/
def azureToken (M : Mbedtls) (key uri : Bytes) (policyName : Option Bytes) (expiry : Int32) :
    Bytes :=
  ascii "SharedAccessSignature sr=" ++ percentEncode uri ++
    ascii "&sig=" ++ percentEncode (sasSignature M key (percentEncode uri) expiry) ++
    ascii "&se=" ++ dec expiry.toInt ++ policyName.elim [] fun policy => ascii "&skn=" ++ policy

/-- The uri, the signature and the token fit their buffers. -/
structure TokenFits (M : Mbedtls) (key uri : Bytes) (policyName : Option Bytes)
    (expiry : Int32) : Prop where
  uriFits : EncodingFits 192 uri
  sigFits : EncodingFits 96 (sasSignature M key (percentEncode uri) expiry)
  tokenFits : (azureToken M key uri policyName expiry).length < 256

theorem tokenText_eq (uri sig se : Bytes) (policyName : Option Bytes) :
    tokenText uri sig se policyName = ascii "SharedAccessSignature sr=" ++ (uri ++
      38 :: (ascii "sig=" ++ (sig ++ (ascii "&se=" ++ se ++
        policyName.elim [] fun policy => ascii "&skn=" ++ policy)))) := by
  have hsig : ascii "&sig=" = 38 :: ascii "sig=" := rfl
  cases policyName <;> simp [tokenText, hsig]

theorem azureToken_eq (M : Mbedtls) (key uri : Bytes) (policyName : Option Bytes)
    (expiry : Int32) : azureToken M key uri policyName expiry =
      tokenText (percentEncode uri)
        (percentEncode (sasSignature M key (percentEncode uri) expiry)) (dec expiry.toInt)
        policyName := by
  cases policyName <;> simp [tokenText, azureToken]

/-- The text that is signed fits its buffer. -/
theorem toSign_fits (uri : Bytes) (expiry : Int32) :
    snprintf 256 (urlEncode 192 uri ++ 10 :: dec expiry.toInt) =
      urlEncode 192 uri ++ 10 :: dec expiry.toInt := by
  have huri : (urlEncode 192 uri).length < 192 := urlEncodeFrom_length uri (by decide)
  have hdec := dec_length_le expiry
  refine List.take_of_length_le ?_
  rw [List.length_append, List.length_cons]
  omega

/-- With a key that is decoded, the token is made of what the buffers hold. -/
theorem buildSasToken_valid (hkey : M.base64Decode effectiveKey = some key)
    (hlen : key.length ≤ keySize) :
    buildSasToken M memory effectiveKey uri policyName outSize time =
      (some (snprintf outSize (tokenText (urlEncode 192 uri)
          (urlEncode 96 (sasSignature M key (urlEncode 192 uri) (sasExpiry time)))
          (dec (sasExpiry time).toInt) policyName)),
        [⟨key, key.length, urlEncode 192 uri ++ 10 :: dec (sasExpiry time).toInt⟩]) := by
  have hdecode : M.decodeKey memory effectiveKey =
      ⟨true, key.length, key ++ memory.drop key.length⟩ := by
    rw [Mbedtls.decodeKey, hkey]
    exact if_pos hlen
  have hsign := toSign_fits uri (sasExpiry time)
  unfold sasExpiry at hsign
  simp only [buildSasToken, hdecode, if_true, Decoding.hmacCall, List.take_left, hsign,
    Mbedtls.digestBase64, sasSignature, sasExpiry]

/-- Without a key the function returns false, and signs nothing. -/
theorem buildSasToken_invalid (h : ¬ ValidKey M effectiveKey) :
    buildSasToken M memory effectiveKey uri policyName outSize time = (none, []) := by
  have hdecode : (M.decodeKey memory effectiveKey).ok = false := by
    rw [Mbedtls.decodeKey]
    split
    · rfl
    · rename_i key hkey
      rw [if_neg fun hlen => h ⟨key, hkey, hlen⟩]
  simp only [buildSasToken, hdecode, Bool.false_eq_true, if_false]

/-- The function returns true exactly when the effective key is decoded. -/
theorem buildSasToken_isSome :
    (buildSasToken M memory effectiveKey uri policyName outSize time).1.isSome ↔
      ValidKey M effectiveKey := by
  by_cases h : ValidKey M effectiveKey
  · obtain ⟨key, hkey, hlen⟩ := h
    rw [buildSasToken_valid hkey hlen]
    exact ⟨fun _ => ⟨key, hkey, hlen⟩, fun _ => rfl⟩
  · rw [buildSasToken_invalid h]
    exact ⟨fun hsome => absurd hsome (by simp), fun hvalid => absurd hvalid h⟩

/-- The text up to the signature, which ends before the 256 bytes do. -/
theorem uri_of_snprintf_eq {uri uri' sig sig' se : Bytes} (hlen : uri.length < 192)
    (huri : 38 ∉ uri) (huri' : 38 ∉ uri')
    (h : snprintf 256 (tokenText uri sig se policyName) = tokenText uri' sig' se policyName) :
    uri = uri' := by
  have hpre : (ascii "SharedAccessSignature sr=").length = 25 := by decide
  rw [tokenText_eq, tokenText_eq, snprintf, List.take_append, hpre,
    List.take_of_length_le (by rw [hpre]; decide), List.append_cancel_left_eq, List.take_append,
    List.take_of_length_le (by omega),
    List.take_cons (show 0 < 256 - 1 - 25 - uri.length by omega)] at h
  have hsplit := congrArg (List.takeWhile (· ≠ 38)) h
  have hcut : ∀ (s rest : Bytes), 38 ∉ s → (s ++ 38 :: rest).takeWhile (· ≠ 38) = s := by
    intro s rest hs
    rw [List.takeWhile_append_of_pos, List.takeWhile_cons_of_neg (by decide), List.append_nil]
    intro b hb
    exact decide_eq_true fun heq => hs (heq ▸ hb)
  rwa [hcut _ _ huri, hcut _ _ huri'] at hsplit

/-- A signature whose beginning makes the same token is whole. -/
theorem sig_of_snprintf_eq {uri sig sig' se : Bytes} (hsig : sig <+: sig')
    (h : snprintf 256 (tokenText uri sig se policyName) = tokenText uri sig' se policyName) :
    sig = sig' ∧ (tokenText uri sig' se policyName).length < 256 := by
  have hlen := congrArg List.length h
  rw [snprintf, List.length_take] at hlen
  have hle : sig'.length ≤ sig.length := by
    rw [tokenText_eq, tokenText_eq] at hlen
    simp only [List.length_append, List.length_cons] at hlen
    omega
  exact ⟨hsig.eq_of_length_le hle, by omega⟩

/-- A token is the one that Azure expects if and only if the uri, the
signature and the token fit their buffers. -/
theorem sasToken_exact_iff
    (h : (buildSasToken M memory effectiveKey uri policyName 256 time).1 = some token) :
    ∃ key, M.base64Decode effectiveKey = some key ∧
      (token = azureToken M key uri policyName (sasExpiry time) ↔
        TokenFits M key uri policyName (sasExpiry time)) := by
  obtain ⟨key, hkey, hlen⟩ : ValidKey M effectiveKey :=
    buildSasToken_isSome.mp (Option.isSome_of_eq_some h)
  rw [buildSasToken_valid hkey hlen] at h
  have htoken := Option.some.inj h
  refine ⟨key, hkey, ?_⟩
  constructor
  · intro hexact
    rw [← htoken, azureToken_eq] at hexact
    have hnone : 38 ∉ urlEncode 192 uri := fun hmem =>
      ampersand_notMem_percentEncode uri ((urlEncode_prefix_percentEncode 192 uri).subset hmem)
    have huri : urlEncode 192 uri = percentEncode uri :=
      uri_of_snprintf_eq (urlEncodeFrom_length uri (by decide)) hnone
        (ampersand_notMem_percentEncode uri) hexact
    rw [huri] at hexact
    obtain ⟨hsig, htotal⟩ := sig_of_snprintf_eq (urlEncode_prefix_percentEncode 96 _) hexact
    exact ⟨urlEncode_eq_iff.mp huri, urlEncode_eq_iff.mp hsig, by rwa [azureToken_eq]⟩
  · intro hfits
    have htotal := hfits.tokenFits
    rw [azureToken_eq] at htotal ⊢
    rw [← htoken, urlEncode_eq_iff.mpr hfits.uriFits, urlEncode_eq_iff.mpr hfits.sigFits]
    exact List.take_of_length_le (by omega)

/-- The digests of the examples below: of a long uri, of the registration id
under no key at all, under the key that is derived from it, and else of a short
uri. -/
def sampleHmac (key message : Bytes) : Bytes :=
  if 100 < message.length then
    [ 186, 251, 1, 102, 241, 239, 213, 114, 191, 186, 94, 35, 170, 143, 119, 188
    , 140, 135, 26, 91, 198, 57, 112, 18, 80, 85, 249, 115, 229, 23, 20, 76 ]
  else if key = [] then
    [ 130, 111, 214, 192, 147, 36, 6, 137, 79, 217, 188, 13, 78, 6, 164, 43
    , 28, 105, 244, 114, 232, 39, 129, 60, 222, 151, 84, 242, 151, 208, 220, 134 ]
  else if key.head? = some 0 then
    [ 180, 101, 155, 167, 250, 176, 116, 144, 201, 49, 34, 222, 8, 134, 23, 179
    , 183, 19, 15, 215, 34, 212, 155, 105, 167, 37, 253, 101, 106, 139, 177, 79 ]
  else
    [ 138, 207, 188, 14, 56, 183, 17, 129, 138, 217, 9, 160, 71, 163, 234, 207
    , 219, 252, 102, 92, 68, 14, 114, 160, 191, 197, 44, 47, 202, 237, 220, 203 ]

/-- A library that computes the examples below. -/
def sampleMbedtls : Mbedtls where
  base64Decode := Base64.decode
  hmacSha256 := sampleHmac
  decode_encode := Base64.decode_encode
  hmac_length key message := by
    unfold sampleHmac
    split_ifs <;> rfl

def sampleKey : Bytes := ascii "AAECAwQFBgcICQoLDA0ODxAREhMUFRYXGBkaGxwdHh8="

def sampleUri : Bytes := ascii "hub.azure-devices.net/devices/esp32"

/-- A hub of 30 bytes and a device id of 120. -/
def longUri : Bytes :=
  ascii "winegrid-hub.azure-devices.net/devices/" ++ List.replicate 120 97

/-- The token of a device with a short id. -/
theorem sasToken_exact_sample :
    ∃ key, sampleMbedtls.base64Decode sampleKey = some key ∧
      azureToken sampleMbedtls key sampleUri none 1700003600 =
        ascii "SharedAccessSignature sr=hub.azure-devices.net%2Fdevices%2Fesp32" ++
          ascii "&sig=tGWbp%2FqwdJDJMSLeCIYXs7cTD9ci1JtppyX9ZWqLsU8%3D&se=1700003600" := by
  have hissued : (buildSasToken sampleMbedtls [] sampleKey sampleUri none 256 1700000000).1 =
      some (ascii "SharedAccessSignature sr=hub.azure-devices.net%2Fdevices%2Fesp32" ++
        ascii "&sig=tGWbp%2FqwdJDJMSLeCIYXs7cTD9ci1JtppyX9ZWqLsU8%3D&se=1700003600") := by
    decide +kernel
  obtain ⟨key, hkey, hiff⟩ := sasToken_exact_iff hissued
  refine ⟨key, hkey, (hiff.mpr ?_).symm⟩
  have hsome : sampleMbedtls.base64Decode sampleKey = some (List.ofFn fun i : Fin 32 =>
      UInt8.ofNat i) := by decide +kernel
  obtain rfl := Option.some.inj (hsome.symm.trans hkey)
  exact ⟨by decide +kernel, by decide +kernel, by decide +kernel⟩

/-- The token of the long uri is cut, and issued nevertheless. -/
theorem sasToken_cut :
    ¬ ∀ (M : Mbedtls) (memory effectiveKey uri key token : Bytes) (policyName : Option Bytes)
      (time : Int64), uri.length ≤ 159 → M.base64Decode effectiveKey = some key →
      (buildSasToken M memory effectiveKey uri policyName 256 time).1 = some token →
      token = azureToken M key uri policyName (sasExpiry time) := by
  intro h
  have hkey : sampleMbedtls.base64Decode sampleKey = some (List.ofFn fun i : Fin 32 =>
      UInt8.ofNat i) := by decide +kernel
  have hexact := h sampleMbedtls [] sampleKey longUri _ _ none 1700000000 (by decide +kernel) hkey
    (congrArg Prod.fst (buildSasToken_valid hkey (by decide)))
  have hlong : 256 ≤ (azureToken sampleMbedtls (List.ofFn fun i : Fin 32 => UInt8.ofNat i) longUri
      none (sasExpiry 1700000000)).length := by decide +kernel
  rw [← hexact, snprintf, List.length_take] at hlong
  omega

/-! ## Malformed keys -/

/-- With the configured key, a token is issued only if the key is valid, and no
signature reads past the key buffer. -/
def MalformedKeyRejected (M : Mbedtls) (config : DpsConfig) (keyMemory memory uri : Bytes)
    (policyName : Option Bytes) (outSize : Nat) (time : Int64) : Prop :=
  let effective := initEffectiveSymmetricKey M keyMemory config
  let token := buildSasToken M memory effective.1 uri policyName outSize time
  (token.1.isSome → ValidKey M config.symmetricKey) ∧
    ∀ call ∈ effective.2 ++ token.2, call.keyLen ≤ keySize

/-- A signature of a token is never made with more than the key buffer. -/
theorem buildSasToken_keyLen {call : HmacCall}
    (h : call ∈ (buildSasToken M memory effectiveKey uri policyName outSize time).2) :
    call.keyLen ≤ keySize := by
  by_cases hvalid : ValidKey M effectiveKey
  · obtain ⟨key, hkey, hlen⟩ := hvalid
    rw [buildSasToken_valid hkey hlen] at h
    rw [List.mem_singleton.mp h]
    exact hlen
  · rw [buildSasToken_invalid hvalid] at h
    exact absurd h List.not_mem_nil

/-- A derived key is always a valid key. -/
theorem deriveGroupDeviceKey_valid (M : Mbedtls) (memory groupKey registrationId : Bytes) :
    ValidKey M (deriveGroupDeviceKey M memory groupKey registrationId).1 := by
  refine ⟨_, M.decode_encode _, ?_⟩
  rw [M.hmac_length]
  decide

theorem decodeKey_keyLen {src : Bytes} (h : ValidKey M src) :
    (M.decodeKey memory src).keyLen ≤ keySize := by
  obtain ⟨key, hkey, hlen⟩ := h
  rw [Mbedtls.decodeKey, hkey]
  show (if key.length ≤ keySize then _ else _ : Decoding).keyLen ≤ keySize
  rw [if_pos hlen]
  exact hlen

/-- In an individual enrollment the key is rejected unless its first 127 bytes
are a valid key.  In a group enrollment it has to be valid in the first
place. -/
theorem malformedKey_rejected_iff (M : Mbedtls) (config : DpsConfig) (keyMemory memory uri : Bytes)
    (policyName : Option Bytes) (outSize : Nat) (time : Int64) :
    MalformedKeyRejected M config keyMemory memory uri policyName outSize time ↔
      (ValidKey M config.symmetricKey ∨ config.useGroupEnrollment = false ∧
        ¬ ValidKey M (config.symmetricKey.take 127)) := by
  unfold MalformedKeyRejected initEffectiveSymmetricKey
  cases hgroup : config.useGroupEnrollment with
  | false =>
    simp only [Bool.false_eq_true, if_false, List.nil_append, buildSasToken_isSome, true_and]
    constructor
    · rintro ⟨htoken, -⟩
      by_cases hcut : ValidKey M (config.symmetricKey.take 127)
      · exact Or.inl (htoken hcut)
      · exact Or.inr hcut
    · intro h
      refine ⟨fun hcut => ?_, fun call hcall => buildSasToken_keyLen hcall⟩
      rcases h with h | h
      · exact h
      · exact absurd hcut h
  | true =>
    simp only [if_true, buildSasToken_isSome, reduceCtorEq, false_and, or_false]
    constructor
    · rintro ⟨htoken, -⟩
      exact htoken (deriveGroupDeviceKey_valid M keyMemory config.symmetricKey _)
    · intro h
      refine ⟨fun _ => h, fun call hcall => ?_⟩
      rcases List.mem_append.mp hcall with hderive | htoken
      · rw [List.mem_singleton.mp hderive]
        exact decodeKey_keyLen h
      · exact buildSasToken_keyLen htoken

/-- A group key that is no Base64 yields a token, which anybody can make. -/
theorem malformedKey_accepted :
    ¬ ∀ (M : Mbedtls) (config : DpsConfig) (keyMemory memory uri : Bytes)
      (policyName : Option Bytes) (outSize : Nat) (time : Int64),
      MalformedKeyRejected M config keyMemory memory uri policyName outSize time := by
  intro h
  obtain ⟨key, hkey, -⟩ := (h sampleMbedtls ⟨true, ascii "!", ascii "esp32"⟩ [] [] sampleUri none
    256 1700000000).1
    (buildSasToken_isSome.mpr (deriveGroupDeviceKey_valid sampleMbedtls [] (ascii "!") _))
  have hnone : Base64.decode (ascii "!") = none := by decide
  exact absurd (hnone.symm.trans hkey) (by simp)

end Winegrid.Azure
