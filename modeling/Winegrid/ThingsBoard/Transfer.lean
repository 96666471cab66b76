import Winegrid.Lib.Decimal
import Winegrid.ThingsBoard.Network
import Winegrid.ThingsBoard.Release

/-!
# A download from an honest server

The server answers every chunk request with the bytes that it asks for, and
the flash library never fails.  Then the client asks for every chunk of the
image once, in order, and installs it.

* `Underway` is a client that has `k` chunks and waits for the next one, and
  `Completes` one that installed the image.
* `underway_next` and `underway_last` are what the next chunk does.
* `Transfer` puts the messages beside the client, and `transfer_next` is the
  step lemma of the network.
* `ota_completes` is the law of the runs.
-/

namespace Winegrid.ThingsBoard

open Esp Client

variable {P : Platform} {r : Release} {c c' start : Client} {o : Outcomes} {id : Int32} {k : Nat}

/-! ## Chunks -/

/-- The number of chunks of an image of `n` bytes. -/
def chunkCount (n : Nat) : Nat := (n + (fwChunkSize - 1)) / fwChunkSize

theorem lt_chunkCount {n : Nat} : k < chunkCount n ↔ fwChunkSize * k < n := by
  rw [chunkCount, fwChunkSize]
  omega

theorem chunk_length (image : Bytes) (k : Nat) :
    (chunk image k).length = min fwChunkSize (image.length - fwChunkSize * k) := by
  rw [chunk, List.length_take, List.length_drop]

/-- All the chunks are the image. -/
theorem chunks_chunkCount (image : Bytes) : chunks image (chunkCount image.length) = image := by
  have hcount : ¬chunkCount image.length < chunkCount image.length := Nat.lt_irrefl _
  rw [lt_chunkCount] at hcount
  rw [chunks_eq_take, List.take_of_length_le (by omega)]

/-- A request names its attempt and its chunk. -/
theorem requestTopic_injective {a b i j : Int32} (h : requestTopic a i = requestTopic b j) :
    a = b ∧ i = j := by
  have hwhole : ∀ a i : Int32, requestTopic a i =
      ascii "v2/fw/request/" ++ (dec a.toInt ++ ascii "/chunk/" ++ dec i.toInt) := by
    intro a i
    have hprefix : (ascii "v2/fw/request/").length = 14 := rfl
    have hsep : (ascii "/chunk/").length = 7 := rfl
    have ha := dec_length_le a
    have hi := dec_length_le i
    rw [requestTopic, snprintf, List.take_of_length_le, List.append_assoc, List.append_assoc,
      List.append_assoc]
    simp only [List.length_append, hprefix, hsep]
    omega
  rw [hwhole, hwhole] at h
  obtain ⟨ha, hi⟩ := fields_injective (List.append_cancel_left h)
  exact ⟨Int32.toInt.inj ha, Int32.toInt.inj hi⟩

/-! ## What was written -/

def wroteOf : Effect → Option (Slot × Bytes)
  | .otaWrite slot data => some (slot, data)
  | _ => none

/-- The messages that were written to the flash, each with its slot. -/
def written (es : List Effect) : List (Slot × Bytes) := es.filterMap wroteOf

theorem written_append (es fs : List Effect) : written (es ++ fs) = written es ++ written fs :=
  List.filterMap_append

theorem written_installEffects (fw : FwInfo) (slot : Slot) (version : Bytes) :
    written (installEffects fw slot version) = [] := rfl

/-- The requests of an attempt for the first `n` chunks. -/
def firstRequests (id : Int32) (n : Nat) : List Bytes :=
  (List.range n).map fun i => requestTopic id (Int32.ofNat i)

/-- The first `n` chunks, written one by one. -/
def firstWrites (slot : Slot) (image : Bytes) (n : Nat) : List (Slot × Bytes) :=
  (List.range n).map fun i => (slot, chunk image i)

theorem firstRequests_succ (id : Int32) (n : Nat) :
    firstRequests id (n + 1) = firstRequests id n ++ [requestTopic id (Int32.ofNat n)] := by
  rw [firstRequests, List.range_succ, List.map_append]
  rfl

theorem firstWrites_succ (slot : Slot) (image : Bytes) (n : Nat) :
    firstWrites slot image (n + 1) = firstWrites slot image n ++ [(slot, chunk image n)] := by
  rw [firstWrites, List.range_succ, List.map_append]
  rfl

/-- What was reported, asked for and written since `start`. -/
def Logged (start c : Client) (states : List FwState) (requests : List Bytes)
    (writes : List (Slot × Bytes)) : Prop :=
  ∃ es, c.journal = start.journal.writes es ∧ reported es = states ∧ requested es = requests ∧
    written es = writes

/-- A step adds its own. -/
theorem Logged.append {states : List FwState} {requests : List Bytes}
    {writes : List (Slot × Bytes)} {more : List Effect} (h : Logged start c states requests writes)
    (hjournal : c'.journal = c.journal.writes more) :
    Logged start c' (states ++ reported more) (requests ++ requested more)
      (writes ++ written more) := by
  obtain ⟨es, hes, rfl, rfl, rfl⟩ := h
  refine ⟨es ++ more, ?_, reported_append es more, requested_append es more,
    written_append es more⟩
  rw [hjournal, hes, Journal.writes_append]

/-! ## States -/

/-- A client that has the first `k` chunks, and asked for the next one. -/
structure Underway (P : Platform) (r : Release) (start : Client) (id : Int32) (k : Nat)
    (c : Client) : Prop where
  halt : c.halt = none
  connected : c.mqttConnected = true
  inProgress : c.dl.inProgress = true
  attempt : InAttempt P c
  partition : c.dl.updatePartition = some start.slot.other
  describes : Matches c.fw r
  fits : Fits c.fw
  requestId : c.dl.requestId = id
  chunkIndex : c.dl.chunkIndex = Int32.ofNat k
  shaCtx : c.dl.shaCtx = chunks r.image k
  logged : Logged start c [.downloading] (firstRequests id (k + 1))
    (firstWrites start.slot.other r.image k)

/-- A client that asked for every chunk once, wrote the image and nothing
else, reported every state, and set the boot partition. -/
structure Completes (r : Release) (start c : Client) : Prop where
  halt : c.halt = some .restart
  logged : ∃ id, Logged start c [.downloading, .downloaded, .verified, .updating, .updated]
    (firstRequests id (chunkCount r.image.length))
    (firstWrites start.slot.other r.image (chunkCount r.image.length))
  image : c.journal.disk.app start.slot.other = r.image
  bootSlot : c.journal.disk.bootSlot = start.slot.other
  imgState : c.journal.disk.imgState = .new

/-! ## The next chunk -/

/-- What the next chunk finds: it starts inside the image, and there is room
for it. -/
structure Meets (P : Platform) (r : Release) (start c : Client) (k : Nat) : Prop where
  length : (chunks r.image k).length = fwChunkSize * k
  ne : chunk r.image k ≠ []
  can : c.ota.canWrite c.dl.otaHandle P.partitionSize (chunk r.image k) = true
  journal : (c.acceptChunk (chunk r.image k)).journal =
    c.journal.writes [.otaWrite start.slot.other (chunk r.image k)]
  attempt : InAttempt P (c.acceptChunk (chunk r.image k))
  shaCtx : (c.acceptChunk (chunk r.image k)).dl.shaCtx = chunks r.image (k + 1)
  received : (c.acceptChunk (chunk r.image k)).dl.received.toInt =
    (chunks r.image (k + 1)).length

theorem underway_meets (hgenuine : r.Genuine P) (h : Underway P r start id k c)
    (hk : fwChunkSize * k < r.image.length) : Meets P r start c k := by
  have hlen := chunk_length r.image k
  have hpos : 0 < (chunk r.image k).length := by
    rw [hlen, fwChunkSize] at *
    omega
  have hne : chunk r.image k ≠ [] := List.ne_nil_of_length_pos hpos
  have hlength := chunks_length_of_chunk_ne_nil hne
  obtain ⟨slot, hhandles, hpart, -⟩ := h.attempt
  obtain rfl : slot = start.slot.other := Option.some_inj.mp (hpart.symm.trans h.partition)
  have hfind : c.ota.find c.dl.otaHandle =
      some ⟨c.dl.otaHandle, start.slot.other, c.dl.shaCtx⟩ := by
    simp [Ota.find, hhandles]
  have hcan : c.ota.canWrite c.dl.otaHandle P.partitionSize (chunk r.image k) = true := by
    have hroom := hgenuine.image_le
    rw [h.shaCtx] at hfind
    simp only [Ota.canWrite, hfind, hlength, decide_eq_true_eq]
    rw [hlen]
    omega
  have hsha : (c.acceptChunk (chunk r.image k)).dl.shaCtx = chunks r.image (k + 1) := by
    show c.dl.shaCtx ++ chunk r.image k = _
    rw [h.shaCtx, chunks, chunks, List.range_succ, List.flatMap_append, List.flatMap_singleton]
  have hattempt := acceptChunk_inAttempt h.attempt hcan
  refine ⟨hlength, hne, hcan, ?_, hattempt, hsha, ?_⟩
  · rw [acceptChunk, hfind]
    rfl
  · obtain ⟨-, -, -, -, -, hreceived⟩ := hattempt
    rw [hreceived, hsha]

/-- A chunk that is not the last one. -/
theorem underway_next (hgenuine : r.Genuine P) (ho : o.Succeed) (h : Underway P r start id k c)
    (hk : fwChunkSize * (k + 1) < r.image.length) :
    Underway P r start id (k + 1) (c.handleFwChunkData P o (chunk r.image k)) ∧
      requested (c.journal.since (c.handleFwChunkData P o (chunk r.image k)).journal) =
        [requestTopic id (Int32.ofNat (k + 1))] := by
  have hk' : fwChunkSize * k < r.image.length := by
    rw [Nat.mul_succ] at hk
    omega
  have hmeets := underway_meets hgenuine h hk'
  have hmore : (c.acceptChunk (chunk r.image k)).dl.received < c.fw.size := by
    rw [Int32.lt_iff_toInt_lt, hmeets.received, h.describes.size, chunks_eq_take, List.length_take]
    omega
  have hindex : c.dl.chunkIndex + 1 = Int32.ofNat (k + 1) := by
    rw [h.chunkIndex, Int32.ofNat_add]
    rfl
  have hjournal : (c.acceptChunk (chunk r.image k)).nextChunk.journal = c.journal.writes
      [.otaWrite start.slot.other (chunk r.image k),
        .publish (requestTopic id (Int32.ofNat (k + 1))) chunkSizePayload] := by
    rw [← hindex, ← h.requestId]
    exact congrArg (Journal.write · _) hmeets.journal
  rw [handleFwChunkData_accept h.inProgress ho.otaWrite hmeets.can hmeets.ne hmore]
  refine ⟨⟨h.halt, h.connected, h.inProgress, nextChunk_inAttempt hmeets.attempt, h.partition,
    h.describes, h.fits, h.requestId, hindex, hmeets.shaCtx, ?_⟩, ?_⟩
  · rw [firstRequests_succ id (k + 1), firstWrites_succ]
    exact h.logged.append hjournal
  · rw [hjournal, Journal.since_writes]
    rfl

/-- A message of a download that fits and is the last one. -/
theorem handleFwChunkData_finish {data : Bytes} (hprog : c.dl.inProgress = true)
    (hwrite : o.otaWrite = true)
    (hcan : c.ota.canWrite c.dl.otaHandle P.partitionSize data = true)
    (hlast : c.fw.size ≤ (c.acceptChunk data).dl.received) :
    c.handleFwChunkData P o data = (c.acceptChunk data).finishFwUpdate P o
      ((c.acceptChunk data).dl.received = c.fw.size) := by
  have hfw : (c.acceptChunk data).fw = c.fw := rfl
  rw [handleFwChunkData, hprog, hwrite, hcan]
  simp only [Bool.not_true, Bool.and_self, Bool.false_eq_true, if_false, hfw,
    if_pos (Or.inr hlast)]

/-- A finished download of the right length and digest is installed. -/
theorem finishFwUpdate_installs {slot : Slot} (ho : o.Succeed)
    (hsum : checksumOk P c.fw c.dl.shaCtx = true) (hpart : c.dl.updatePartition = some slot) :
    c.finishFwUpdate P o true = c.installed P slot := by
  simp [finishFwUpdate, bootUpdate, reportFwState, sendTelemetryJson, emit, releaseHandle,
    installed, installEffects, fwReport, Journal.writes_cons, hsum, ho.otaEnd, hpart, ho.setBoot,
    Flash.apply]

theorem chunkCount_last {n : Nat} (hk : fwChunkSize * k < n) (hlast : n ≤ fwChunkSize * (k + 1)) :
    chunkCount n = k + 1 := by
  unfold fwChunkSize at hk hlast
  rw [chunkCount, fwChunkSize]
  omega

/-- The last chunk brings the rest of the image, and the digest matches. -/
theorem underway_installs (hgenuine : r.Genuine P) (ho : o.Succeed)
    (h : Underway P r start id k c) (hk : fwChunkSize * k < r.image.length)
    (himage : chunks r.image (k + 1) = r.image) :
    c.handleFwChunkData P o (chunk r.image k) =
      (c.acceptChunk (chunk r.image k)).installed P start.slot.other := by
  have hmeets := underway_meets hgenuine h hk
  have hsize : (c.acceptChunk (chunk r.image k)).dl.received = c.fw.size := by
    refine Int32.toInt.inj ?_
    rw [hmeets.received, h.describes.size, himage]
  have hsum : checksumOk P (c.acceptChunk (chunk r.image k)).fw
      (c.acceptChunk (chunk r.image k)).dl.shaCtx = true := by
    show checksumOk P c.fw _ = true
    rw [hmeets.shaCtx, himage, checksumOk, h.describes.algorithm, h.describes.checksum,
      hgenuine.algorithm, hgenuine.checksum]
    rfl
  rw [handleFwChunkData_finish h.inProgress ho.otaWrite hmeets.can
    (hsize ▸ Int32.le_refl _), hsize, decide_eq_true rfl]
  exact finishFwUpdate_installs ho hsum h.partition

/-- The last chunk. -/
theorem underway_last (hgenuine : r.Genuine P) (ho : o.Succeed) (h : Underway P r start id k c)
    (hk : fwChunkSize * k < r.image.length) (hlast : r.image.length ≤ fwChunkSize * (k + 1)) :
    Completes r start (c.handleFwChunkData P o (chunk r.image k)) ∧
      requested (c.journal.since (c.handleFwChunkData P o (chunk r.image k)).journal) = [] := by
  have hmeets := underway_meets hgenuine h hk
  have hcount : chunkCount r.image.length = k + 1 := chunkCount_last hk hlast
  have himage : chunks r.image (k + 1) = r.image := by
    rw [← hcount, chunks_chunkCount]
  obtain ⟨slot, -, hpart, happ, -⟩ := hmeets.attempt
  obtain rfl : slot = start.slot.other := Option.some_inj.mp (hpart.symm.trans h.partition)
  have hjournal : ((c.acceptChunk (chunk r.image k)).installed P start.slot.other).journal =
      c.journal.writes ([.otaWrite start.slot.other (chunk r.image k)] ++ installEffects
        (c.acceptChunk (chunk r.image k)).fw start.slot.other
        (P.build ((c.acceptChunk (chunk r.image k)).journal.disk.app
          start.slot.other)).version) := by
    rw [Journal.writes_append, ← hmeets.journal]
    rfl
  have hrequested : ∀ fw slot version, requested ([.otaWrite start.slot.other (chunk r.image k)] ++
      installEffects fw slot version) = [] := fun fw slot version => by
    rw [requested_append, requested_installEffects]
    rfl
  rw [underway_installs hgenuine ho h hk himage]
  refine ⟨⟨rfl, ⟨id, ?_⟩, ?_, ?_, ?_⟩, ?_⟩
  · have hlogged := h.logged.append hjournal
    rw [reported_append, written_append, hrequested, written_installEffects,
      reported_installEffects (show Fits (c.acceptChunk (chunk r.image k)).fw from h.fits),
      List.append_nil, List.append_nil] at hlogged
    rw [hcount, firstWrites_succ]
    exact hlogged
  · rw [hmeets.shaCtx, himage] at happ
    simpa [installed, installEffects, fwReport, Journal.writes_cons, Flash.apply] using happ
  · simp [installed, installEffects, fwReport, Journal.writes_cons, Flash.apply]
  · simp [installed, installEffects, fwReport, Journal.writes_cons, Flash.apply]
  · rw [hjournal, Journal.since_writes, hrequested]

/-- A turn of the timer in between. -/
theorem underway_telemetry (h : Underway P r start id k c) :
    Underway P r start id k c.telemetry := by
  obtain ⟨temperature, es, htalk, heq⟩ := telemetry_eq c
  have hdisk : (c.journal.writes es).disk = c.journal.disk :=
    writes_talk fun e he => (htalk e he).talks
  have hreported : reported es = [] := List.filterMap_eq_nil_iff.mpr fun e he => (htalk e he).state
  have hrequested : requested es = [] :=
    List.filterMap_eq_nil_iff.mpr fun e he => (htalk e he).request
  have hwritten : written es = [] := by
    refine List.filterMap_eq_nil_iff.mpr fun e he => ?_
    have htalks := (htalk e he).talks
    cases e <;> first | rfl | exact htalks.elim
  rw [heq]
  refine ⟨h.halt, h.connected, h.inProgress, ?_, h.partition, h.describes, h.fits, h.requestId,
    h.chunkIndex, h.shaCtx, ?_⟩
  · obtain ⟨slot, hhandles, hpart, happ, hlen, hreceived⟩ := h.attempt
    exact ⟨slot, hhandles, hpart, hdisk ▸ happ, hlen, hreceived⟩
  · have hlogged : Logged start
        { c with fakeTemperature := temperature, journal := c.journal.writes es } _ _ _ :=
      h.logged.append rfl
    simp only [hreported, hrequested, hwritten, List.append_nil] at hlogged
    exact hlogged

/-! ## The network -/

def Wire.isMessage : Wire → Bool
  | .serve .. | .deliver .. => true
  | _ => false

/-- The server answers a request with the chunk that it names, and no call of
the flash library fails; nothing else happens but the timer, and events that
the client ignores. -/
def Honest (image : Bytes) (s : Net) : Wire → Prop
  | .client .telemetry => True
  | .client (.event _ .other) => True
  | .serve n payload => ∀ id i, s.requests[n]? = some (requestTopic id i) →
    payload = chunk image i.toInt.toNat
  | .deliver _ o => o.Succeed
  | _ => False

/-- Where the `m`-th message of the download leaves the client and the
network. -/
inductive Transfer (P : Platform) (r : Release) (start : Client) (id : Int32) : Nat → Net → Prop
  /-- The server owes chunk `k`. -/
  | asked {k : Nat} {c : Client} (hk : fwChunkSize * k < r.image.length)
      (h : Underway P r start id k c) :
      Transfer P r start id (2 * k) ⟨c, [requestTopic id (Int32.ofNat k)], []⟩
  /-- Chunk `k` is on its way. -/
  | answered {k : Nat} {c : Client} (hk : fwChunkSize * k < r.image.length)
      (h : Underway P r start id k c) :
      Transfer P r start id (2 * k + 1)
        ⟨c, [], [(requestTopic id (Int32.ofNat k), chunk r.image k)]⟩
  | done {c : Client} (h : Completes r start c) :
      Transfer P r start id (2 * chunkCount r.image.length) ⟨c, [], []⟩

/-- A chunk index never overflows. -/
theorem toNat_ofNat_of_lt (hgenuine : r.Genuine P) (hk : fwChunkSize * k < r.image.length) :
    (Int32.ofNat k).toInt.toNat = k := by
  have hlen := P.partitionSize_lt
  have hfits := hgenuine.image_le
  unfold fwChunkSize at hk
  rw [Int32.toInt_ofNat_of_lt (by omega), Int.toNat_natCast]

/-- What the client does of its own: a turn of the timer, or nothing. -/
theorem next_of_honest {s : Net} {l : Label} (hok : Honest r.image s (.client l))
    (hnext : c.next P l = some c') : c.halt = none ∧ (c' = c.telemetry ∨ c' = c) := by
  unfold Client.next at hnext
  split_ifs at hnext with hhalt
  refine ⟨by simpa using hhalt, ?_⟩
  cases l with
  | telemetry => exact Or.inl (Option.some_inj.mp hnext).symm
  | event o e =>
    cases e with
    | other => exact Or.inr (Option.some_inj.mp hnext).symm
    | _ => exact hok.elim

theorem requested_telemetry (c : Client) :
    requested (c.journal.since c.telemetry.journal) = [] := by
  obtain ⟨temperature, es, htalk, heq⟩ := telemetry_eq c
  rw [heq, Journal.since_writes]
  exact List.filterMap_eq_nil_iff.mpr fun e he => (htalk e he).request

/-- Such a step moves no message. -/
theorem advance_of_honest {s s' : Net} {l : Label} (hok : Honest r.image s (.client l))
    (hnext : s.advance P l = some s') : s.client.halt = none ∧ s'.requests = s.requests ∧
      s'.responses = s.responses ∧ (s'.client = s.client.telemetry ∨ s'.client = s.client) := by
  obtain ⟨c', hclient, rfl⟩ := Option.map_eq_some_iff.mp hnext
  obtain ⟨hhalt, hstep⟩ := next_of_honest hok hclient
  refine ⟨hhalt, ?_, rfl, hstep⟩
  rcases hstep with rfl | rfl
  · simp only [requested_telemetry, List.append_nil]
  · simp [requested]

theorem transfer_client {s s' : Net} {l : Label} {m : Nat} (h : Transfer P r start id m s)
    (hok : Honest r.image s (.client l)) (hnext : s.next P (.client l) = some s') :
    Transfer P r start id m s' := by
  simp only [Net.next] at hnext
  split_ifs at hnext
  obtain ⟨hhalt, hrequests, hresponses, hstep⟩ := advance_of_honest hok hnext
  rcases s' with ⟨c', requests, responses⟩
  simp only at hrequests hresponses hstep
  subst hrequests hresponses
  cases h with
  | asked hk h =>
    refine .asked hk ?_
    rcases hstep with rfl | rfl
    · exact underway_telemetry h
    · exact h
  | answered hk h =>
    refine .answered hk ?_
    rcases hstep with rfl | rfl
    · exact underway_telemetry h
    · exact h
  | done h => exact absurd (h.halt.symm.trans hhalt) (by decide)

/-- The server answers. -/
theorem transfer_serve {s s' : Net} {n m : Nat} {payload : Bytes} (hgenuine : r.Genuine P)
    (h : Transfer P r start id m s) (hok : Honest r.image s (.serve n payload))
    (hnext : s.next P (.serve n payload) = some s') : Transfer P r start id (m + 1) s' := by
  obtain ⟨request, hrequest, rfl⟩ := Option.map_eq_some_iff.mp hnext
  cases h with
  | asked hk h =>
    obtain ⟨hone, hnone⟩ := eraseIdx_of_singleton hrequest (Nat.le_refl 1)
    obtain rfl : requestTopic id (Int32.ofNat _) = request := (List.cons.inj hone).1
    have hpayload := hok _ _ hrequest
    rw [toNat_ofNat_of_lt hgenuine hk] at hpayload
    simp only [hnone, h.connected, if_true, List.nil_append, hpayload]
    exact .answered hk h
  | answered => simp at hrequest
  | done => simp at hrequest

/-- The answer arrives. -/
theorem transfer_deliver {s s' : Net} {n m : Nat} (hgenuine : r.Genuine P)
    (h : Transfer P r start id m s) (hok : Honest r.image s (.deliver n o))
    (hnext : s.next P (.deliver n o) = some s') : Transfer P r start id (m + 1) s' := by
  unfold Net.next at hnext
  split_ifs at hnext
  obtain ⟨answer, hanswer, hadvance⟩ := Option.bind_eq_some_iff.mp hnext
  obtain ⟨c', hclient, rfl⟩ := Option.map_eq_some_iff.mp hadvance
  cases h with
  | asked => simp at hanswer
  | @answered k c hk h =>
    obtain ⟨hone, hnone⟩ := eraseIdx_of_singleton hanswer (Nat.le_refl 1)
    obtain rfl : (requestTopic id (Int32.ofNat k), chunk r.image k) = answer :=
      (List.cons.inj hone).1
    have hprefix :
        startsWith (answerTopic (requestTopic id (Int32.ofNat k))) fwTopicPrefix = true :=
      rfl
    rw [next_event h.halt, Option.some_inj, mqttEventHandler, if_pos hprefix] at hclient
    subst hclient
    simp only [hnone, List.nil_append]
    by_cases hlast : fwChunkSize * (k + 1) < r.image.length
    · obtain ⟨hunderway, hrequested⟩ := underway_next hgenuine hok h hlast
      rw [hrequested]
      exact .asked hlast hunderway
    · obtain ⟨hcompletes, hrequested⟩ := underway_last hgenuine hok h hk (by omega)
      have hcount : 2 * k + 1 + 1 = 2 * chunkCount r.image.length := by
        unfold fwChunkSize at hk hlast
        rw [chunkCount, fwChunkSize]
        omega
      rw [hrequested, hcount]
      exact .done hcompletes
  | done => simp at hanswer

/-- Every step moves the download by the messages that it moves. -/
theorem transfer_next {s s' : Net} {w : Wire} {m : Nat} (hgenuine : r.Genuine P)
    (h : Transfer P r start id m s) (hok : Honest r.image s w) (hnext : s.next P w = some s') :
    Transfer P r start id (m + if w.isMessage then 1 else 0) s' := by
  cases w with
  | client l => exact transfer_client h hok hnext
  | connect o => exact hok.elim
  | disconnect o => exact hok.elim
  | serve n payload => exact transfer_serve hgenuine h hok hnext
  | deliver n o => exact transfer_deliver hgenuine h hok hnext

/-- Until the last chunk has arrived an honest server can send a message. -/
theorem transfer_progress {s : Net} {m : Nat} (hgenuine : r.Genuine P)
    (h : Transfer P r start id m s) (hm : m < 2 * chunkCount r.image.length) :
    ∃ w s', w.isMessage = true ∧ Honest r.image s w ∧ s.next P w = some s' := by
  cases h with
  | @asked k c hk h =>
    refine ⟨.serve 0 (chunk r.image k), _, rfl, fun id' i hrequest => ?_, rfl⟩
    obtain ⟨-, rfl⟩ := requestTopic_injective (Option.some_inj.mp hrequest)
    rw [toNat_ofNat_of_lt hgenuine hk]
  | @answered k c hk h =>
    have hsome : ((⟨c, [], [(requestTopic id (Int32.ofNat k), chunk r.image k)]⟩ : Net).next P
        (.deliver 0 allOk)).isSome = true := by
      simp only [Net.next, h.connected, if_true, List.getElem?_cons_zero, Option.bind_some,
        Net.advance, next_event h.halt, Option.map_some, Option.isSome_some]
    obtain ⟨s', hs'⟩ := Option.isSome_iff_exists.mp hsome
    exact ⟨.deliver 0 allOk, s', rfl, allOk_succeed, hs'⟩
  | done => exact absurd hm (Nat.lt_irrefl _)

theorem Transfer.le {s : Net} {m : Nat} (h : Transfer P r start id m s) :
    m ≤ 2 * chunkCount r.image.length := by
  cases h with
  | asked hk =>
    have hlt := lt_chunkCount.mpr hk
    omega
  | answered hk =>
    have hlt := lt_chunkCount.mpr hk
    omega
  | done => exact Nat.le_refl _

/-- After the last message the image is installed. -/
theorem Transfer.completes {s : Net} {m : Nat} (h : Transfer P r start id m s)
    (hm : m = 2 * chunkCount r.image.length) : Completes r start s.client := by
  cases h with
  | asked hk =>
    have hlt := lt_chunkCount.mpr hk
    omega
  | answered hk => omega
  | done h => exact h

/-! ## Runs -/

/-- The announcement is the start of the download. -/
theorem offer_underway {topic payload : Bytes} {root : CJson}
    (hreach : (client P).Reachable start) (hhalt : start.halt = none)
    (hconnected : start.mqttConnected = true) (hidle : start.dl.inProgress = false)
    (hgenuine : r.Genuine P) (hannounces : Announces P r payload root)
    (hnew : r.version ≠ start.build.version)
    (hfailed : start.journal.disk.nvs .failedFw ≠ some r.version) (ho : o.Succeed)
    (htopic : startsWith topic fwTopicPrefix = false)
    (hrpc : startsWith topic rpcRequestTopicPrefix = false) :
    Underway P r start (start.dl.requestId + 1) 0
        (mqttEventHandler P start o (.data topic payload)) ∧
      requested (start.journal.since (mqttEventHandler P start o (.data topic payload)).journal) =
        [requestTopic (start.dl.requestId + 1) 0] := by
  have hinv : Sound P start ∧ Fits start.fw := by
    refine hreach.invariant (I := fun c => Sound P c ∧ Fits c.fw) ?_ ?_
    · rintro c ⟨build, slot, journal, rfl⟩
      have hfits : Fits ⟨[], [], [], [], 0, false⟩ := ⟨by decide, by decide⟩
      exact ⟨sound_fresh P build slot journal, hfits⟩
    · intro c l c' _ h _ hnext
      exact ⟨sound_next h.1 hnext, (next_fits h.2 hnext).2⟩
  have hfits := (next_fits hinv.2 (next_event (P := P) hhalt o (.data topic payload))).2
  obtain ⟨d, hmatches, ⟨interval, fw, rfl⟩, heq⟩ := offer_starts hgenuine hannounces hhalt hidle
    hnew hfailed ho htopic hrpc
  rw [heq] at hfits ⊢
  have hattempt := beginDownload_inAttempt (P := P)
    (c := { start with publishIntervalMs := interval, fw := fw }.setPartition
      (some start.slot.other)) (hinv.1.idle hhalt hidle) start.slot.other rfl
  have hlogged : Logged start
      (({ start with publishIntervalMs := interval, fw := fw }.setPartition
        (some start.slot.other)).beginDownload start.slot.other) [.downloading]
      (firstRequests (start.dl.requestId + 1) 1) (firstWrites start.slot.other r.image 0) :=
    ⟨startEffects { start with fw := fw } start.slot.other, rfl, rfl, rfl, rfl⟩
  refine ⟨⟨hhalt, hconnected, rfl, hattempt, rfl, hmatches, hfits, rfl, rfl, rfl, hlogged⟩, ?_⟩
  rw [beginDownload_eq]
  simp only [setPartition, Journal.since_writes]
  rfl

/-- With the announcement the marker is stored, and the first chunk is asked
for. -/
theorem transfer_offer {topic payload : Bytes} {root : CJson} {s₁ : Net}
    (hreach : (client P).Reachable start) (hidle : start.dl.inProgress = false)
    (hgenuine : r.Genuine P) (hannounces : Announces P r payload root)
    (hnew : r.version ≠ start.build.version)
    (hfailed : start.journal.disk.nvs .failedFw ≠ some r.version) (ho : o.Succeed)
    (hrpc : startsWith topic rpcRequestTopicPrefix = false)
    (hoffer : (⟨start, [], []⟩ : Net).next P (.client (.event o (.data topic payload))) =
      some s₁) :
    Transfer P r start (start.dl.requestId + 1) 0 s₁ ∧
      s₁.client.journal.disk.nvs =
        Function.update start.journal.disk.nvs .pendingFw (some r.version) := by
  simp only [Net.next] at hoffer
  split_ifs at hoffer with hadmits
  obtain ⟨hconnected, htopic⟩ := Bool.and_eq_true_iff.mp hadmits
  obtain ⟨c', hclient, heq⟩ := Option.map_eq_some_iff.mp hoffer
  subst heq
  have hhalt := (next_step hclient).1
  have hdata : startsWith topic fwTopicPrefix = false := by simpa using htopic
  rw [next_event hhalt, Option.some_inj] at hclient
  subst hclient
  obtain ⟨hunderway, hrequested⟩ := offer_underway hreach hhalt hconnected hidle hgenuine
    hannounces hnew hfailed ho hdata hrpc
  constructor
  · rw [hrequested]
    exact .asked (List.length_pos_iff.mpr hgenuine.image_ne) hunderway
  · obtain ⟨d, hmatches, ⟨interval, fw, hd⟩, hbegin⟩ := offer_starts hgenuine hannounces hhalt
      hidle hnew hfailed ho hdata hrpc
    show (mqttEventHandler P start o (.data topic payload)).journal.disk.nvs = _
    rw [hbegin, ← hmatches.version, hd]
    rfl

/-- A run with an honest server is as far as its messages are. -/
theorem transfer_run {s₁ s : Net} {ls : List Wire} (hgenuine : r.Genuine P)
    (h : Transfer P r start id 0 s₁) (hrun : (net P).Run (Honest r.image) s₁ ls s) :
    Transfer P r start id (ls.countP Wire.isMessage) s := by
  refine hrun.invariant (I := fun ls => Transfer P r start id (ls.countP Wire.isMessage)) h ?_
  intro ls s w s' h hok hnext
  rw [List.countP_append, List.countP_singleton]
  exact transfer_next hgenuine h hok hnext

/-- An honest server can always bring a download to its end. -/
theorem transfer_exists {s₁ : Net} (hgenuine : r.Genuine P) (h : Transfer P r start id 0 s₁)
    {m : Nat} (hm : m ≤ 2 * chunkCount r.image.length) :
    ∃ ls s, (net P).Run (Honest r.image) s₁ ls s ∧ ls.countP Wire.isMessage = m := by
  induction m with
  | zero => exact ⟨[], s₁, .nil s₁, rfl⟩
  | succ m ih =>
    obtain ⟨ls, s, hrun, hcount⟩ := ih (by omega)
    have htransfer := hcount ▸ transfer_run hgenuine h hrun
    obtain ⟨w, s', hmessage, hok, hnext⟩ := transfer_progress hgenuine htransfer hm
    refine ⟨ls ++ [w], s', .snoc hrun hok hnext, ?_⟩
    rw [List.countP_append, List.countP_singleton, hcount, if_pos hmessage]

/-- A connected client without a download gets the announcement of a release
that is new to it, and an honest server answers its requests.  Then at most
two messages move for each chunk; as long as there were fewer, the next one
can be sent; and after the last one the image is installed. -/
theorem ota_completes {topic payload : Bytes} {root : CJson} {s₁ s : Net} {ls : List Wire}
    (hreach : (client P).Reachable start) (hidle : start.dl.inProgress = false)
    (hgenuine : r.Genuine P) (hannounces : Announces P r payload root)
    (hnew : r.version ≠ start.build.version)
    (hfailed : start.journal.disk.nvs .failedFw ≠ some r.version) (ho : o.Succeed)
    (hrpc : startsWith topic rpcRequestTopicPrefix = false)
    (hoffer : (⟨start, [], []⟩ : Net).next P (.client (.event o (.data topic payload))) = some s₁)
    (hrun : (net P).Run (Honest r.image) s₁ ls s) :
    ls.countP Wire.isMessage ≤ 2 * chunkCount r.image.length ∧
      (ls.countP Wire.isMessage < 2 * chunkCount r.image.length →
        ∃ w s', w.isMessage = true ∧ Honest r.image s w ∧ s.next P w = some s') ∧
      (ls.countP Wire.isMessage = 2 * chunkCount r.image.length →
        Completes r start s.client) := by
  have hstart := (transfer_offer hreach hidle hgenuine hannounces hnew hfailed ho hrpc hoffer).1
  have htransfer := transfer_run hgenuine hstart hrun
  exact ⟨htransfer.le, transfer_progress hgenuine htransfer, htransfer.completes⟩

/-! ## One release -/

/-- Version 1.8 is the image `abc`. -/
def release18 : Release := ⟨ascii "abc", ascii "1.8", hexLower abcDigest, ascii "SHA256"⟩

theorem release18_genuine : release18.Genuine (samplePlatform [package18]) := by
  constructor <;> decide +kernel

/-- The one attribute of a key says what the key is. -/
theorem says_of_filter {items : List (Option Bytes × CJson)} {key : Bytes} {value : CJson}
    (h : items.filter (fun item => item.1 = some key) = [(some key, value)]) :
    Says items key value := by
  refine ⟨List.mem_of_mem_filter (h ▸ List.mem_singleton_self _), fun other hmem => ?_⟩
  have hfiltered : (some key, other) ∈ items.filter (fun item => item.1 = some key) :=
    List.mem_filter.mpr ⟨hmem, decide_eq_true rfl⟩
  rw [h, List.mem_singleton] at hfiltered
  exact (Prod.mk.inj hfiltered).2

theorem package18_announces : Announces (samplePlatform [package18]) release18 package18.text
    (.object package18.members) where
  parse := samplePlatform_parse (by simp)
  named := by
    intro item hitem
    have hcontainer : container (.object package18.members) = .object package18.members := rfl
    rw [hcontainer] at hitem
    obtain ⟨m, -, rfl⟩ := List.mem_map.mp hitem
    exact Option.some_ne_none _
  version := says_of_filter rfl
  size := says_of_filter rfl
  checksum := says_of_filter rfl
  algorithm := says_of_filter rfl

/-- The client of 1.7 once it is connected. -/
def onlineClient : Client :=
  mqttEventHandler (samplePlatform [package18]) sampleClient allOk .connected

/-! ## A release of two chunks -/

@[irreducible] def image20 : Bytes := List.replicate 5000 7

theorem image20_length : image20.length = 5000 := by
  unfold image20
  exact List.length_replicate

/-- The SHA-256 of the image. -/
def digest20 : Bytes :=
  [ 0xf3, 0x02, 0xa3, 0xf8, 0x55, 0x03, 0xee, 0xb1, 0xa1, 0x05, 0xc8,
    0x1a, 0x5f, 0xbe, 0xa0, 0xaa, 0x46, 0x14, 0x17, 0xfb, 0x38, 0x93,
    0x91, 0x95, 0x72, 0x94, 0x9c, 0xad, 0xbf, 0xee, 0x86, 0xa7 ]

def release20 : Release := ⟨image20, ascii "2.0", hexLower digest20, ascii "SHA256"⟩

def package20 : Package :=
  ⟨ascii "esp32-winegrid", ascii "2.0", 5000, hexLower digest20, ascii "SHA256"⟩

/-- The platform that knows the digest of version 2.0. -/
def platform20 : Platform :=
  { samplePlatform [package20] with
    sha256 := fun bytes => if bytes = image20 then digest20 else [] }

theorem sha256_image20 : platform20.sha256 image20 = digest20 := by
  show (if image20 = image20 then digest20 else []) = digest20
  rw [if_pos rfl]

theorem release20_genuine : release20.Genuine platform20 where
  image_ne := by
    refine List.length_pos_iff.mp ?_
    show 0 < image20.length
    rw [image20_length]
    decide
  image_le := by
    show image20.length ≤ 1048576
    rw [image20_length]
    decide
  version_ne := by decide
  version_lt := by decide
  digest := by
    show (platform20.sha256 image20).length = 32
    rw [sha256_image20]
    rfl
  checksum := by
    show strcaseeq (hexLower (platform20.sha256 image20)) (hexLower digest20) = true
    rw [sha256_image20]
    decide +kernel
  algorithm := by decide

theorem package20_announces :
    Announces platform20 release20 package20.text (.object package20.members) where
  parse := by
    simp only [platform20]
    exact samplePlatform_parse (by simp)
  named := by
    intro item hitem
    have hcontainer : container (.object package20.members) = .object package20.members := rfl
    rw [hcontainer] at hitem
    obtain ⟨m, -, rfl⟩ := List.mem_map.mp hitem
    exact Option.some_ne_none _
  version := says_of_filter rfl
  size := by
    show Says _ _ (.number (Int32.ofNat image20.length))
    rw [image20_length]
    exact says_of_filter rfl
  checksum := says_of_filter rfl
  algorithm := says_of_filter rfl

/-- The two chunks of version 2.0 are asked for, sent and delivered, and the
image is installed. -/
theorem ota_completes_sample : ∃ s : Net, chunkCount release20.image.length = 2 ∧
    Completes release20 onlineClient s.client := by
  have hconnect : (client platform20).next sampleClient (.event allOk .connected) =
      some onlineClient := rfl
  have hinit : (client platform20).init sampleClient := ⟨_, _, _, rfl⟩
  have hreach : (client platform20).Reachable onlineClient := .step (.init hinit) trivial hconnect
  have hsome : ((⟨onlineClient, [], []⟩ : Net).next platform20
      (.client (.event allOk (.data attributesTopic package20.text)))).isSome = true := by
    decide +kernel
  obtain ⟨s₁, hoffer⟩ := Option.isSome_iff_exists.mp hsome
  have hidle : onlineClient.dl.inProgress = false := by decide +kernel
  have hnew : release20.version ≠ onlineClient.build.version := by decide +kernel
  have hfailed : onlineClient.journal.disk.nvs .failedFw ≠ some release20.version := by
    decide +kernel
  have hrpc : startsWith attributesTopic rpcRequestTopicPrefix = false := by decide
  obtain ⟨ls, s, hrun, hcount⟩ := transfer_exists release20_genuine
    (transfer_offer hreach hidle release20_genuine package20_announces hnew hfailed allOk_succeed
      hrpc hoffer).1 (Nat.le_refl _)
  have hchunks : chunkCount release20.image.length = 2 := by
    show chunkCount image20.length = 2
    rw [image20_length]
    rfl
  have hcompletes := ota_completes hreach hidle release20_genuine package20_announces hnew hfailed
    allOk_succeed hrpc hoffer hrun
  exact ⟨s, hchunks, hcompletes.2.2 hcount⟩

end Winegrid.ThingsBoard
