import Winegrid.ThingsBoard.Integrity
import Mathlib.Data.List.Flatten

/-!
# The chunk protocol

A server answers every chunk request with the bytes of a fixed image, under
the request id and the chunk index of the request, and the network delays and
repeats the answers at will.  The client gets a message with its topic, but
writes it whatever request it answers.

* `InOrder` says that what was written are the first chunks of the image.
* `inOrder_next` is the step lemma, for a message that answers the outstanding
  request, and `chunks_in_order` the law of the runs of such messages.
* `repeated_chunk_written` is a run in which a chunk comes twice and is
  written twice.
-/

namespace Winegrid.ThingsBoard

open Esp Client

variable {P : Platform} {image : Bytes} {c c' : Client} {l : Label}

/-! ## The server -/

def responseTopic (requestId chunkIndex : Int32) : Bytes :=
  ascii "v2/fw/response/" ++ dec requestId.toInt ++ ascii "/chunk/" ++ dec chunkIndex.toInt

/-- Chunk `i` of the image. -/
def chunk (image : Bytes) (i : Nat) : Bytes := (image.drop (fwChunkSize * i)).take fwChunkSize

/-- The first `n` chunks, in order. -/
def chunks (image : Bytes) (n : Nat) : Bytes := (List.range n).flatMap (chunk image)

/-- The message answers the request `(requestId, chunkIndex)`, and the client
has made that request. -/
structure Answers (image : Bytes) (c : Client) (topic payload : Bytes)
    (requestId chunkIndex : Int32) : Prop where
  topic : topic = responseTopic requestId chunkIndex
  payload : payload = chunk image chunkIndex.toInt.toNat
  requested : .publish (requestTopic requestId chunkIndex) chunkSizePayload ∈ c.journal.log

/-- A firmware message answers some request of the client. -/
def ServerAnswers (image : Bytes) (c : Client) : Label → Prop
  | .event _ (.data topic payload) =>
    startsWith topic fwTopicPrefix = true → ∃ r i, Answers image c topic payload r i
  | _ => True

/-- A firmware message that meets a download answers the request that the
client is waiting for. -/
def InTurn (image : Bytes) (c : Client) : Label → Prop
  | .event _ (.data topic payload) =>
    startsWith topic fwTopicPrefix = true → c.dl.inProgress = true →
      Answers image c topic payload c.dl.requestId c.dl.chunkIndex
  | _ => True

/-- What was written to the one open handle are the chunks below
`s_fw_chunk_index`, in order. -/
def InOrder (image : Bytes) (c : Client) : Prop :=
  ∃ h n, c.ota.handles = [h] ∧ c.dl.chunkIndex.toInt = (n : Nat) ∧ h.wrote = chunks image n

/-! ## Chunks -/

/-- The first chunks are a prefix of the image. -/
theorem chunks_eq_take (image : Bytes) (n : Nat) :
    chunks image n = image.take (fwChunkSize * n) := by
  induction n with
  | zero => simp [chunks]
  | succ n ih =>
    rw [chunks, List.range_succ, List.flatMap_append, ← chunks, ih, List.flatMap_singleton, chunk,
      Nat.mul_succ, List.take_add]

/-- The chunks so far, with the counter, and enough of them to keep the
counter small. -/
def Ordered (image : Bytes) (c : Client) : Prop :=
  ∃ n : Nat, c.dl.chunkIndex.toInt = n ∧ c.dl.shaCtx = chunks image n ∧
    fwChunkSize * n < c.dl.shaCtx.length + fwChunkSize

/-- A chunk that is not empty starts inside the image. -/
theorem chunks_length_of_chunk_ne_nil {n : Nat} (h : chunk image n ≠ []) :
    (chunks image n).length = fwChunkSize * n := by
  rw [chunks_eq_take, List.length_take, Nat.min_eq_left]
  by_contra hlt
  exact h (by rw [chunk, List.drop_of_length_le (by omega), List.take_nil])

/-! ## Steps -/

/-- The right chunk, written, is the next one. -/
theorem nextChunk_ordered {data : Bytes} (h : Ordered image c)
    (hdata : data = chunk image c.dl.chunkIndex.toInt.toNat) (hne : data ≠ [])
    (hlen : c.dl.shaCtx.length + data.length < 2 ^ 31) :
    Ordered image (c.acceptChunk data).nextChunk := by
  obtain ⟨n, hn, hsha, hsmall⟩ := h
  rw [hn, Int.toNat_natCast] at hdata
  have hfull := chunks_length_of_chunk_ne_nil (hdata ▸ hne)
  have hpos : 0 < data.length := List.length_pos_iff.mpr hne
  rw [← hsha, fwChunkSize] at hfull
  refine ⟨n + 1, ?_, ?_, ?_⟩
  · exact received_add (m := 1) hn (by omega)
  · change c.dl.shaCtx ++ data = _
    rw [hsha, hdata, chunks, chunks, List.range_succ, List.flatMap_append, List.flatMap_singleton]
  · change _ < (c.dl.shaCtx ++ data).length + _
    rw [List.length_append, fwChunkSize]
    omega

/-- The invariant of the chunk protocol. -/
structure OrderInv (P : Platform) (image : Bytes) (c : Client) : Prop where
  sound : Sound P c
  ordered : c.halt = none → c.dl.inProgress = true → Ordered image c

/-- No message is handled while a download starts, so it starts in order. -/
theorem startFwUpdate_ordered {o : Outcomes} (hidle : c.dl.inProgress = false)
    (hbusy : (c.startFwUpdate o).dl.inProgress = true) : Ordered image (c.startFwUpdate o) := by
  rcases startFwUpdate_cases c o with ⟨-, p, payload, -, heq⟩ | ⟨-, heq⟩
  · rw [heq] at hbusy
    exact absurd (hidle.symm.trans hbusy) (by decide)
  · rw [heq]
    exact ⟨0, rfl, rfl, Nat.lt_add_left _ (by decide)⟩

theorem handleFwChunkData_ordered {o : Outcomes} {data : Bytes} (h : OrderInv P image c)
    (hhalt : c.halt = none)
    (hturn : c.dl.inProgress = true → data = chunk image c.dl.chunkIndex.toInt.toNat)
    (hhalt' : (c.handleFwChunkData P o data).halt = none)
    (hbusy : (c.handleFwChunkData P o data).dl.inProgress = true) :
    Ordered image (c.handleFwChunkData P o data) := by
  obtain ⟨hprog, hcan, hne, heq⟩ := handleFwChunkData_goes_on hhalt' hbusy
  obtain ⟨slot, -, -, -, hlen, -⟩ := acceptChunk_inAttempt (h.sound.busy hhalt hprog) hcan
  have hsmall := P.partitionSize_lt
  have happend : (c.acceptChunk data).dl.shaCtx = c.dl.shaCtx ++ data := rfl
  rw [happend, List.length_append] at hlen
  rw [heq]
  exact nextChunk_ordered (h.ordered hhalt hprog) (hturn hprog) hne (by omega)

/-- Every step keeps the order, when a message that meets a download answers
the outstanding request. -/
theorem inOrder_next (h : OrderInv P image c) (hturn : InTurn image c l)
    (hnext : c.next P l = some c') : OrderInv P image c' := by
  refine ⟨sound_next h.sound hnext, fun hhalt' hbusy => ?_⟩
  obtain ⟨hhalt, hstep⟩ := next_step hnext
  cases hstep with
  | quiet es htalk hbuild hslot hfw hdl hota hjournal =>
    rw [Ordered, hdl]
    exact h.ordered hhalt (hdl ▸ hbusy)
  | attributes htopic hparse =>
    rw [applyAttributes_dl] at hbusy
    rw [Ordered, applyAttributes_dl]
    exact h.ordered hhalt hbusy
  | offer htopic hparse hhalt'' hwants =>
    exact startFwUpdate_ordered (idle_of_wantsUpdate hwants) hbusy
  | chunk htopic =>
    exact handleFwChunkData_ordered h hhalt (fun hprog => (hturn htopic hprog).payload) hhalt' hbusy

/-! ## Runs -/

/-- In every run in which the server answers the requests of the client, and
each answer that meets a download is the one the client waits for, what is
written of the current attempt are the chunks below the chunk index, in
order. -/
theorem chunks_in_order
    (h : (client P).Reach (fun c l => ServerAnswers image c l ∧ InTurn image c l) c)
    (hhalt : c.halt = none) (hbusy : c.dl.inProgress = true) : InOrder image c := by
  have hinv : OrderInv P image c := by
    refine h.invariant (I := OrderInv P image) ?_
      fun _ _ _ _ hs hok hnext => inOrder_next hs hok.2 hnext
    rintro c ⟨build, slot, journal, rfl⟩
    exact ⟨sound_fresh P build slot journal, fun _ hbusy => by simp [Client.fresh] at hbusy⟩
  obtain ⟨slot, hhandles, -⟩ := hinv.sound.busy hhalt hbusy
  obtain ⟨n, hn, hsha, -⟩ := hinv.ordered hhalt hbusy
  exact ⟨_, n, hhandles, hn, hsha⟩

/-! ## A chunk that comes twice -/

/-- A message of a download that fits and does not end it. -/
theorem handleFwChunkData_accept {o : Outcomes} {data : Bytes} (hprog : c.dl.inProgress = true)
    (hwrite : o.otaWrite = true)
    (hcan : c.ota.canWrite c.dl.otaHandle P.partitionSize data = true) (hne : data ≠ [])
    (hmore : (c.acceptChunk data).dl.received < c.fw.size) :
    c.handleFwChunkData P o data = (c.acceptChunk data).nextChunk := by
  have hlast : ¬(data.length = 0 ∨ c.fw.size ≤ (c.acceptChunk data).dl.received) := by
    rw [not_or, List.length_eq_zero_iff]
    exact ⟨hne, Int32.not_le.mpr hmore⟩
  have hfw : (c.acceptChunk data).fw = c.fw := rfl
  rw [handleFwChunkData, hprog, hwrite, hcan]
  simp only [Bool.not_true, Bool.and_self, Bool.false_eq_true, if_false, hfw, if_neg hlast]
  rfl

def zeros : Bytes := List.replicate 4096 0

/-- An image of two chunks and one byte. -/
def longImage : Bytes := zeros ++ List.replicate 4096 1 ++ [2]

def package19 : Package :=
  ⟨ascii "esp32-winegrid", ascii "1.9", 8193,
    ascii "9845784744dabb699d2a143cee07dd714d1e56c298b770f833d84068158c05b2", ascii "SHA256"⟩

theorem zeros_length : zeros.length = 4096 := List.length_replicate

theorem chunk_longImage_zero : chunk longImage 0 = zeros := by
  rw [chunk, longImage, List.append_assoc, Nat.mul_zero, List.drop_zero]
  exact List.take_left' zeros_length

theorem chunks_longImage_two : chunks longImage 2 = zeros ++ List.replicate 4096 1 := by
  rw [chunks_eq_take, longImage]
  exact List.take_left' (by rw [List.length_append, zeros_length, List.length_replicate]; rfl)

/-- Version 1.9 was offered, and then `n` messages `data` came. -/
def got (data : Bytes) : Nat → Client
  | 0 => offered [package19] package19
  | n + 1 => ((got data n).acceptChunk data).nextChunk

/-- A download of version 1.9 is in progress, after `n` messages that ask for
the next chunk. -/
structure Downloading (c : Client) (n : Nat) (wrote : Bytes) : Prop where
  halt : c.halt = none
  inProgress : c.dl.inProgress = true
  handle : c.dl.otaHandle = 1
  handles : c.ota.handles = [⟨1, .ota1, wrote⟩]
  chunkIndex : c.dl.chunkIndex = Int32.ofNat n
  received : c.dl.received = Int32.ofNat wrote.length
  size : c.fw.size = 8193
  requestId : c.dl.requestId = 1
  requested : .publish (requestTopic 1 0) chunkSizePayload ∈ c.journal.log

theorem got_zero (data : Bytes) : Downloading (got data 0) 0 [] := by
  have hoffer : (fun c : Client => (c.halt, c.dl, c.ota.handles, c.fw.size))
      (offered [package19] package19) =
        (none, ⟨true, 1, 0, 0, 1, some .ota1, []⟩, [⟨1, .ota1, []⟩], 8193) := by decide +kernel
  obtain ⟨hhalt, hdl, hhandles, hsize⟩ := by simpa only [Prod.mk.injEq] using hoffer
  have hrequested : .publish (requestTopic 1 0) chunkSizePayload ∈
      (offered [package19] package19).journal.log := by decide +kernel
  constructor <;> simp only [got, hdl, hhalt, hhandles, hsize, hrequested] <;> rfl

theorem got_succ {data wrote : Bytes} {n : Nat} (h : Downloading (got data n) n wrote) :
    Downloading (got data (n + 1)) (n + 1) (wrote ++ data) where
  halt := h.halt
  inProgress := h.inProgress
  handle := h.handle
  handles := by simp [got, nextChunk, requestFwChunk, emit, acceptChunk, Ota.append, h.handles,
    h.handle]
  chunkIndex := by
    simp [got, nextChunk, requestFwChunk, emit, acceptChunk, h.chunkIndex, Int32.ofNat_add]
  received := by
    simp [got, nextChunk, requestFwChunk, emit, acceptChunk, h.received, Int32.ofNat_add]
  size := h.size
  requestId := h.requestId
  requested := List.mem_append_left _ (List.mem_append_left _ h.requested)

/-- The first two times, a message of 4096 bytes is taken for the next
chunk, whatever request it answers. -/
theorem got_next {data wrote : Bytes} {n : Nat} (h : Downloading (got data n) n wrote)
    (hdata : data.length = 4096) (hlen : wrote.length ≤ 4096) :
    (got data n).next (samplePlatform [package19])
        (.event allOk (.data (responseTopic 1 0) data)) = some (got data (n + 1)) := by
  have hprefix : startsWith (responseTopic 1 0) fwTopicPrefix = true := by decide
  have hne : data ≠ [] := List.ne_nil_of_length_pos (by omega)
  have hcan : (got data n).ota.canWrite (got data n).dl.otaHandle
      (samplePlatform [package19]).partitionSize data = true := by
    simp [Ota.canWrite, Ota.find, h.handles, h.handle, hdata, samplePlatform]
    omega
  have hmore : ((got data n).acceptChunk data).dl.received < (got data n).fw.size := by
    have hreceived : (got data n).dl.received.toInt = wrote.length := by
      rw [h.received, Int32.toInt_ofNat_of_lt (by omega)]
    have hadd := received_add (m := data.length) hreceived (by omega)
    have hsize : (8193 : Int32).toInt = 8193 := rfl
    rw [h.size, Int32.lt_iff_toInt_lt, acceptChunk, hadd]
    omega
  rw [next_event h.halt, mqttEventHandler, if_pos hprefix,
    handleFwChunkData_accept h.inProgress rfl hcan hne hmore, got]

theorem answers_zero {n : Nat} {wrote : Bytes} (h : Downloading (got zeros n) n wrote) :
    Answers longImage (got zeros n) (responseTopic 1 0) zeros 1 0 where
  topic := rfl
  payload := by
    have hzero : (0 : Int32).toInt.toNat = 0 := rfl
    rw [hzero, chunk_longImage_zero]
  requested := h.requested

theorem serverAnswers_zero {n : Nat} {wrote : Bytes} (h : Downloading (got zeros n) n wrote) :
    ServerAnswers longImage (got zeros n) (.event allOk (.data (responseTopic 1 0) zeros)) := by
  intro htopic
  exact ⟨1, 0, answers_zero h⟩

theorem zeros_next {n : Nat} {wrote : Bytes} (h : Downloading (got zeros n) n wrote)
    (hlen : wrote.length ≤ 4096) :
    (client (samplePlatform [package19])).next (got zeros n)
        (.event allOk (.data (responseTopic 1 0) zeros)) = some (got zeros (n + 1)) :=
  got_next h zeros_length hlen

/-- The offer alone meets any condition on firmware messages. -/
theorem reach_offered {ok : Client → Label → Prop}
    (hok : ∀ c, ok c (.event allOk (.data attributesTopic package19.text))) :
    (client (samplePlatform [package19])).Reach ok (got zeros 0) :=
  offered_reach [package19] package19 (hok _)

theorem attributesTopic_not_fw : startsWith attributesTopic fwTopicPrefix ≠ true := by decide

/-- Chunk 0 arrives once, and is the first chunk. -/
theorem chunks_in_order_first :
    (got zeros 1).halt = none ∧ (got zeros 1).dl.inProgress = true ∧
      InOrder longImage (got zeros 1) := by
  have hzero := got_zero zeros
  have hone := got_succ hzero
  have hturn : InTurn longImage (got zeros 0) (.event allOk (.data (responseTopic 1 0) zeros)) := by
    intro _ _
    rw [hzero.requestId, hzero.chunkIndex]
    exact answers_zero hzero
  have hoffer : (client (samplePlatform [package19])).Reach
      (fun c l => ServerAnswers longImage c l ∧ InTurn longImage c l) (got zeros 0) :=
    reach_offered fun _ => ⟨fun htopic => absurd htopic attributesTopic_not_fw,
      fun htopic => absurd htopic attributesTopic_not_fw⟩
  have hreach := hoffer.step ⟨serverAnswers_zero hzero, hturn⟩
    (zeros_next hzero (Nat.zero_le _))
  exact ⟨hone.halt, hone.inProgress, chunks_in_order hreach hone.halt hone.inProgress⟩

/-- Chunk 0 arrives twice, and is written as chunk 1 too. -/
theorem repeated_chunk_written :
    ¬ ∀ c, (client (samplePlatform [package19])).Reach (ServerAnswers longImage) c →
      c.halt = none → c.dl.inProgress = true → InOrder longImage c := by
  intro h
  have hzero := got_zero zeros
  have hone := got_succ hzero
  have htwo := got_succ hone
  have hoffer : (client (samplePlatform [package19])).Reach (ServerAnswers longImage)
      (got zeros 0) := reach_offered fun _ htopic => absurd htopic attributesTopic_not_fw
  have hfirst := hoffer.step (serverAnswers_zero hzero)
    (zeros_next hzero (Nat.zero_le _))
  have hsecond := hfirst.step (serverAnswers_zero hone)
    (zeros_next hone (by simp [zeros_length]))
  obtain ⟨handle, n, hhandles, hn, hwrote⟩ := h _ hsecond htwo.halt htwo.inProgress
  have htwo' : n = 2 := by
    have hindex : (Int32.ofNat (0 + 1 + 1)).toInt = 2 := rfl
    rw [htwo.chunkIndex, hindex] at hn
    omega
  rw [htwo.handles, List.singleton_inj] at hhandles
  rw [← hhandles, htwo', chunks_longImage_two, List.nil_append, List.append_right_inj] at hwrote
  rcases (List.replicate_inj.mp hwrote).2 with hlen | hbyte
  · cases hlen
  · exact absurd hbyte (by decide)

end Winegrid.ThingsBoard
