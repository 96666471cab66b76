import Winegrid.Rn2483.Pairing
import Mathlib.Data.List.Forall2

/-!
# The lines of a byte stream

`rn2483_read_line` with its own variables: the array `resp_buf` of the device,
which outlives a call, and the position and the deadline of the call.  A call
may start whenever none is running, and the bytes arrive whenever they like.

The ghost fields say what arrived and what each call took from the UART.

* `frame` is what a call is to make of a segment of the stream.
* `ReaderInv` is the invariant.  Inside a call it says that the array holds
  the frame of what the call has taken so far.
* `readLine_frames`: as long as no call times out, the calls return the frames
  of the successive segments of the stream.
* `turn_tracks` relates the reader to the driver of `Winegrid.Rn2483.Pairing`,
  which keeps the line as a list.
-/

namespace Winegrid.Rn2483

/-! ## The reader -/

/-- The local variables of a call, and the bytes it has taken. -/
structure ReadCall where
  pos : Nat
  deadline : Int
  taken : Bytes
  deriving DecidableEq

/-- What a call returned, the array at that time, and the bytes it took. -/
structure ReadReturn where
  ret : Int
  respBuf : Bytes
  taken : Bytes
  deriving DecidableEq

structure Reader where
  now : Int
  rx : Bytes
  respBuf : Bytes
  call : Option ReadCall
  arrived : Bytes
  returned : List ReadReturn
  deriving DecidableEq

inductive ReaderLabel where
  | call (timeoutMs : Int)
  /-- One turn of the loop. -/
  | turn
  | tick (ms : Nat)
  | arrive (c : UInt8)
  deriving DecidableEq

/-- The call returns. -/
def Reader.finish (r : Reader) (k : ReadCall) (ret : Int) : Reader :=
  { r with call := none, returned := r.returned ++ [⟨ret, r.respBuf, k.taken⟩] }

/-- What the loop does with a character. -/
def Reader.char (r : Reader) (k : ReadCall) (c : UInt8) : Reader :=
  if c = 10 then { r with respBuf := r.respBuf.set k.pos 0 }.finish k k.pos
  else if c ≠ 13 ∧ k.pos < respBufSize - 1 then
    { r with respBuf := r.respBuf.set k.pos c, call := some { k with pos := k.pos + 1 } }
  else { r with call := some k }

/-- One turn of the loop: the deadline, then `uart_poll_in`, then a sleep of
two milliseconds when no character is there. -/
def Reader.turn (r : Reader) (k : ReadCall) : Reader :=
  if k.deadline ≤ r.now then r.finish k (-ETIMEDOUT)
  else match r.rx with
    | [] => { r with now := r.now + 2 }
    | c :: rx => { r with rx := rx }.char { k with taken := k.taken ++ [c] } c

def Reader.next (r : Reader) : ReaderLabel → Option Reader
  | .call timeoutMs =>
    if r.call = none then some { r with call := some ⟨0, r.now + timeoutMs, []⟩ } else none
  | .turn => r.call.map r.turn
  | .tick ms => some { r with now := r.now + ms }
  | .arrive c => some { r with rx := r.rx ++ [c], arrived := r.arrived ++ [c] }

/-- The device before its first call, with what its array holds. -/
def Reader.boot (respBuf : Bytes) : Reader := ⟨0, [], respBuf, none, [], []⟩

def reader : Machine Reader ReaderLabel where
  init r := ∃ respBuf, respBuf.length = respBufSize ∧ r = Reader.boot respBuf
  next := Reader.next

/-! ## The law -/

/-- The bytes that the running call has taken. -/
def Reader.pending (r : Reader) : Bytes := r.call.elim [] ReadCall.taken

/-- A call goes round its loop only before its deadline. -/
def InTime (r : Reader) : ReaderLabel → Prop
  | .turn => ∀ k, r.call = some k → r.now < k.deadline
  | _ => True

/-- What a call makes of a segment: no carriage return, and 63 bytes at
most. -/
def frame (seg : Bytes) : Bytes := (seg.filter (· ≠ 13)).take (respBufSize - 1)

/-- A call took the segment `seg` with its line feed, and returned its frame. -/
structure Framed (r : ReadReturn) (seg : Bytes) : Prop where
  taken : r.taken = seg ++ [10]
  ret : r.ret = (frame seg).length
  line : r.respBuf.take (frame seg).length = frame seg
  terminated : r.respBuf[(frame seg).length]? = some 0

/-- The array holds the frame of what the call has taken, which ends no
line. -/
structure ReadCall.Holds (k : ReadCall) (respBuf : Bytes) : Prop where
  noLf : 10 ∉ k.taken
  pos : k.pos = (frame k.taken).length
  text : respBuf.take k.pos = frame k.taken

/-- The invariant of the runs. -/
structure ReaderInv (r : Reader) : Prop where
  size : r.respBuf.length = respBufSize
  inside : ∀ k, r.call = some k → k.Holds r.respBuf
  stream : r.arrived = (r.returned.map ReadReturn.taken).flatten ++ r.pending ++ r.rx
  framed : ∃ segs : List Bytes, (∀ seg ∈ segs, 10 ∉ seg) ∧ List.Forall₂ Framed r.returned segs

/-! ## One character -/

theorem frame_length_le (seg : Bytes) : (frame seg).length ≤ respBufSize - 1 :=
  List.length_take_le _ _

theorem ReadCall.Holds.pos_le {k : ReadCall} {respBuf : Bytes} (h : k.Holds respBuf) :
    k.pos ≤ respBufSize - 1 := by
  rw [h.pos]
  exact frame_length_le k.taken

/-- One more byte of a segment. -/
theorem frame_concat (seg : Bytes) (c : UInt8) : frame (seg ++ [c]) = pushChar (frame seg) c := by
  unfold frame pushChar
  by_cases hcr : c = 13
  · rw [if_neg fun h => h.1 hcr, List.filter_append,
      List.filter_cons_of_neg (by simpa using hcr), List.filter_nil, List.append_nil]
  · rw [List.filter_append, List.filter_cons_of_pos (by simpa using hcr), List.filter_nil]
    by_cases hroom : (seg.filter (· ≠ 13)).length < respBufSize - 1
    · have hwhole : (seg.filter (· ≠ 13)).take (respBufSize - 1) = seg.filter (· ≠ 13) :=
        List.take_of_length_le (by omega)
      rw [hwhole, if_pos ⟨hcr, hroom⟩]
      refine List.take_of_length_le ?_
      rw [List.length_append, List.length_singleton]
      omega
    · rw [List.take_append_of_le_length (by omega), if_neg]
      intro h
      have hlen := h.2
      rw [List.length_take] at hlen
      omega

/-- A store at the end of the text makes the text longer. -/
theorem take_set_self {buf : Bytes} {pos : Nat} (c : UInt8) (h : pos < buf.length) :
    (buf.set pos c).take (pos + 1) = buf.take pos ++ [c] := by
  rw [List.take_succ_eq_append_getElem (by rw [List.length_set]; exact h),
    List.getElem_set_self, List.take_set_of_le (Nat.le_refl pos)]

/-- A character that ends no line is collected as in `pushChar`. -/
theorem char_text {r : Reader} {k : ReadCall} {c : UInt8} (hsize : r.respBuf.length = respBufSize)
    (hpos : k.pos ≤ respBufSize - 1) (hc : c ≠ 10) :
    ∃ pos respBuf, r.char k c = { r with respBuf := respBuf, call := some { k with pos := pos } } ∧
      respBuf.length = respBufSize ∧
      respBuf.take pos = pushChar (r.respBuf.take k.pos) c ∧
      pos = (pushChar (r.respBuf.take k.pos) c).length := by
  have hlen : (r.respBuf.take k.pos).length = k.pos := by
    rw [List.length_take, hsize]
    omega
  unfold Reader.char pushChar
  rw [if_neg hc, hlen]
  by_cases hroom : c ≠ 13 ∧ k.pos < respBufSize - 1
  · rw [if_pos hroom, if_pos hroom]
    refine ⟨k.pos + 1, r.respBuf.set k.pos c, rfl, by rw [List.length_set, hsize],
      take_set_self c (by omega), ?_⟩
    rw [List.length_append, hlen, List.length_singleton]
  · rw [if_neg hroom, if_neg hroom]
    exact ⟨k.pos, r.respBuf, rfl, hsize, rfl, hlen.symm⟩

/-! ## The run law -/

theorem turn_idle {r : Reader} {k : ReadCall} (hin : r.now < k.deadline) (hrx : r.rx = []) :
    r.turn k = { r with now := r.now + 2 } := by
  rw [Reader.turn, if_neg (by omega), hrx]

theorem turn_char {r : Reader} {k : ReadCall} {c : UInt8} {rx : Bytes} (hin : r.now < k.deadline)
    (hrx : r.rx = c :: rx) :
    r.turn k = Reader.char { r with rx := rx } { k with taken := k.taken ++ [c] } c := by
  rw [Reader.turn, if_neg (by omega), hrx]

/-- What the stream is made of inside a call. -/
theorem ReaderInv.stream_of_call {r : Reader} {k : ReadCall} (h : ReaderInv r)
    (hcall : r.call = some k) :
    r.arrived = (r.returned.map ReadReturn.taken).flatten ++ k.taken ++ r.rx := by
  have hpending : r.pending = k.taken := by rw [Reader.pending, hcall]; rfl
  rw [h.stream, hpending]

/-- A line feed ends the segment that the call has taken. -/
theorem lineFeed_inv {r : Reader} {k : ReadCall} {rx : Bytes} (h : ReaderInv r)
    (hcall : r.call = some k) (hrx : r.rx = 10 :: rx) :
    ReaderInv (Reader.char { r with rx := rx } { k with taken := k.taken ++ [10] } 10) := by
  have hholds := h.inside k hcall
  have hstream := h.stream_of_call hcall
  have hlt : k.pos < r.respBuf.length := by
    rw [h.size]
    exact Nat.lt_of_le_of_lt hholds.pos_le (by decide)
  have hnew : Framed ⟨k.pos, r.respBuf.set k.pos 0, k.taken ++ [10]⟩ k.taken := by
    refine ⟨rfl, by rw [hholds.pos], ?_, ?_⟩
    · rw [← hholds.pos, List.take_set_of_le (Nat.le_refl k.pos)]
      exact hholds.text
    · rw [← hholds.pos]
      exact List.getElem?_set_self hlt
  obtain ⟨segs, hsegs, hframed⟩ := h.framed
  refine ⟨?_, fun k' hk' => absurd hk' (by simp [Reader.char, Reader.finish]), ?_,
    segs ++ [k.taken], ?_, List.rel_append hframed (.cons hnew .nil)⟩
  · show (r.respBuf.set k.pos 0).length = respBufSize
    rw [List.length_set, h.size]
  · show r.arrived = ((r.returned ++ [_]).map ReadReturn.taken).flatten ++ [] ++ rx
    rw [hstream, hrx]
    simp
  · intro seg hseg
    rcases List.mem_append.mp hseg with hold | hlast
    · exact hsegs seg hold
    · rw [List.mem_singleton.mp hlast]
      exact hholds.noLf

/-- Any other character makes the segment longer. -/
theorem collect_inv {r : Reader} {k : ReadCall} {c : UInt8} {rx : Bytes} (h : ReaderInv r)
    (hcall : r.call = some k) (hrx : r.rx = c :: rx) (hc : c ≠ 10) :
    ReaderInv (Reader.char { r with rx := rx } { k with taken := k.taken ++ [c] } c) := by
  have hholds := h.inside k hcall
  have hstream := h.stream_of_call hcall
  have hframe : frame (k.taken ++ [c]) = pushChar (r.respBuf.take k.pos) c := by
    rw [frame_concat, hholds.text]
  obtain ⟨pos, respBuf, hchar, hlen, htext, hpos⟩ := char_text (r := { r with rx := rx })
    (k := { k with taken := k.taken ++ [c] }) h.size hholds.pos_le hc
  rw [hchar]
  refine ⟨hlen, fun k' hk' => ?_, ?_, h.framed⟩
  · obtain rfl := Option.some.inj hk'
    refine ⟨?_, by rw [hframe]; exact hpos, by rw [hframe]; exact htext⟩
    intro hmem
    rcases List.mem_append.mp hmem with hold | hlast
    · exact hholds.noLf hold
    · exact hc (List.mem_singleton.mp hlast).symm
  · show r.arrived = _ ++ (k.taken ++ [c]) ++ rx
    rw [hstream, hrx]
    simp

/-- The turns of a call that does not time out. -/
theorem reader_turn_inv {r : Reader} {k : ReadCall} (h : ReaderInv r) (hcall : r.call = some k)
    (hin : r.now < k.deadline) : ReaderInv (r.turn k) := by
  cases hrx : r.rx with
  | nil =>
    rw [turn_idle hin hrx]
    exact ⟨h.size, h.inside, h.stream, h.framed⟩
  | cons c rx =>
    rw [turn_char hin hrx]
    by_cases hc : c = 10
    · subst hc
      exact lineFeed_inv h hcall hrx
    · exact collect_inv h hcall hrx hc

/-- Every step before the deadline keeps the invariant. -/
theorem reader_next_inv {r t : Reader} {l : ReaderLabel} (h : ReaderInv r) (hin : InTime r l)
    (hnext : r.next l = some t) : ReaderInv t := by
  obtain ⟨hsize, hinside, hstream, hframed⟩ := h
  cases l with
  | call timeoutMs =>
    unfold Reader.next at hnext
    split_ifs at hnext with hidle
    cases hnext
    refine ⟨hsize, fun k hk => ?_, ?_, hframed⟩
    · obtain rfl := Option.some.inj hk
      exact ⟨List.not_mem_nil, rfl, rfl⟩
    · rw [hstream, Reader.pending, hidle]
      rfl
  | turn =>
    obtain ⟨k, hcall, hturn⟩ := Option.map_eq_some_iff.mp hnext
    subst hturn
    exact reader_turn_inv ⟨hsize, hinside, hstream, hframed⟩ hcall (hin k hcall)
  | tick ms =>
    cases hnext
    exact ⟨hsize, hinside, hstream, hframed⟩
  | arrive c =>
    cases hnext
    refine ⟨hsize, hinside, ?_, hframed⟩
    show r.arrived ++ [c] = _ ++ r.pending ++ (r.rx ++ [c])
    rw [hstream, ← List.append_assoc]

theorem reader_inv {r : Reader} (h : reader.Reach InTime r) : ReaderInv r := by
  refine h.invariant ?_ fun _ _ _ _ hr hin hnext => reader_next_inv hr hin hnext
  intro r hr
  obtain ⟨respBuf, hsize, hboot⟩ := hr
  subst hboot
  exact ⟨hsize, fun k hk => absurd hk (by simp [Reader.boot]), rfl, [],
    fun seg hseg => absurd hseg List.not_mem_nil, List.Forall₂.nil⟩

/-- As long as no call times out, the calls take the stream segment by segment,
each with its line feed and nothing lost or taken twice, and return the frames
of the segments.  The position stays inside the array. -/
theorem readLine_frames {r : Reader} (h : reader.Reach InTime r) :
    (∃ segs : List Bytes, (∀ seg ∈ segs, 10 ∉ seg) ∧ List.Forall₂ Framed r.returned segs) ∧
      r.arrived = (r.returned.map ReadReturn.taken).flatten ++ r.pending ++ r.rx ∧
      10 ∉ r.pending ∧ r.respBuf.length = respBufSize ∧
      ∀ k, r.call = some k → k.pos ≤ respBufSize - 1 := by
  have hinv := reader_inv h
  refine ⟨hinv.framed, hinv.stream, ?_, hinv.size, fun k hk => (hinv.inside k hk).pos_le⟩
  unfold Reader.pending
  cases hcall : r.call with
  | none => exact List.not_mem_nil
  | some k => exact (hinv.inside k hcall).noLf

/-- The array before the first call. -/
def zeroBuf : Bytes := List.replicate respBufSize 0

/-- A call that finds `A` and its line end waiting. -/
def oneLine : List ReaderLabel :=
  [.arrive 65, .arrive 13, .call 2000, .turn, .arrive 10, .turn, .turn]

/-- The call returns the one character. -/
theorem readLine_frames_sample :
    ∃ r, reader.exec (Reader.boot zeroBuf) oneLine = some r ∧
      r.returned = [⟨1, 65 :: 0 :: List.replicate 62 0, [65, 13, 10]⟩] ∧
      r.arrived = (r.returned.map ReadReturn.taken).flatten ++ r.pending ++ r.rx := by
  have hstart : reader.Reach InTime (Reader.boot zeroBuf) := .init ⟨zeroBuf, by decide, rfl⟩
  have hwait : reader.Reach InTime ⟨0, [65, 13], zeroBuf, some ⟨0, 2000, []⟩, [65, 13], []⟩ :=
    .step (.step (.step hstart (l := .arrive 65) trivial rfl) (l := .arrive 13) trivial rfl)
      (l := .call 2000) trivial rfl
  have hmiddle : reader.Reach InTime
      ⟨0, [13, 10], zeroBuf.set 0 65, some ⟨1, 2000, [65]⟩, [65, 13, 10], []⟩ :=
    .step (.step hwait (l := .turn) (fun k hk => by cases hk; decide) rfl) (l := .arrive 10)
      trivial rfl
  have hend : reader.Reach InTime ⟨0, [], (zeroBuf.set 0 65).set 1 0, none, [65, 13, 10],
      [⟨1, (zeroBuf.set 0 65).set 1 0, [65, 13, 10]⟩]⟩ :=
    .step (.step hmiddle (l := .turn) (fun k hk => by cases hk; decide) rfl) (l := .turn)
      (fun k hk => by cases hk; decide) rfl
  exact ⟨_, rfl, rfl, (readLine_frames hend).2.1⟩

/-! ## The reader inside the driver -/

/-- The reader and the driver are in the same call. -/
structure Tracks (r : Reader) (k : ReadCall) (s : Sys) : Prop where
  call : r.call = some k
  now : r.now = s.now
  rx : r.rx = s.rx
  deadline : k.deadline = s.deadline
  size : r.respBuf.length = respBufSize
  text : r.respBuf.take k.pos = s.resp
  pos : k.pos = s.resp.length
  room : k.pos ≤ respBufSize - 1

theorem pushChar_length_le {resp : Bytes} (h : resp.length ≤ respBufSize - 1) (c : UInt8) :
    (pushChar resp c).length ≤ respBufSize - 1 := by
  unfold pushChar
  split_ifs with hroom
  · rw [List.length_append, List.length_singleton]
    omega
  · exact h

/-- A turn of the reader is a turn of the driver: both time out, or both go on,
or both end the line that the driver keeps in `resp`. -/
theorem turn_tracks {r : Reader} {k : ReadCall} {s : Sys} (h : Tracks r k s) :
    (r.turn k = r.finish k (-ETIMEDOUT) ∧ s.turn = s.finish (-ETIMEDOUT)) ∨
    (∃ k', Tracks (r.turn k) k' s.turn) ∨
    (∃ rx respBuf taken, r.turn k = { r with
        rx := rx
        respBuf := respBuf
        call := none
        returned := r.returned ++ [⟨s.resp.length, respBuf, taken⟩] } ∧
      respBuf.take s.resp.length = s.resp ∧ s.turn = (s.take rx s.resp).gotLine) := by
  have hnow := h.now
  have hdeadline := h.deadline
  by_cases hlate : s.deadline ≤ s.now
  · refine Or.inl ⟨?_, ?_⟩
    · rw [Reader.turn, if_pos (by omega)]
    · rw [Sys.turn, if_pos hlate]
  have hin : r.now < k.deadline := by omega
  cases hrx : s.rx with
  | nil =>
    refine Or.inr (Or.inl ⟨k, ?_⟩)
    rw [turn_idle hin (h.rx.trans hrx), Sys.turn, if_neg hlate, hrx]
    refine ⟨h.call, ?_, h.rx.trans hrx, h.deadline, h.size, h.text, h.pos, h.room⟩
    show r.now + 2 = ((s.now + 2 : Nat) : Int)
    omega
  | cons c rx =>
    have hturn : s.turn = if c = 10 then (s.take rx s.resp).gotLine
        else s.take rx (pushChar s.resp c) := by
      rw [Sys.turn, if_neg hlate, hrx]
    rw [turn_char hin (h.rx.trans hrx), hturn]
    by_cases hc : c = 10
    · rw [if_pos hc]
      refine Or.inr (Or.inr ⟨rx, r.respBuf.set k.pos 0, k.taken ++ [c], ?_, ?_, rfl⟩)
      · rw [← h.pos, Reader.char, if_pos hc]
        rfl
      · rw [← h.pos, List.take_set_of_le (Nat.le_refl k.pos), h.text]
    · obtain ⟨pos, respBuf, hchar, hlen, htext, hpos⟩ := char_text (r := { r with rx := rx })
        (k := { k with taken := k.taken ++ [c] }) h.size h.room hc
      have hpush : respBuf.take pos = pushChar s.resp c := by
        rw [htext]
        exact congrArg (pushChar · c) h.text
      have hlength : pos = (pushChar s.resp c).length := by
        rw [hpos]
        exact congrArg (fun resp => (pushChar resp c).length) h.text
      rw [if_neg hc, hchar]
      refine Or.inr (Or.inl ⟨_, rfl, h.now, rfl, h.deadline, hlen, hpush, hlength, ?_⟩)
      show pos ≤ respBufSize - 1
      rw [hlength]
      exact pushChar_length_le (h.pos ▸ h.room) c

end Winegrid.Rn2483
