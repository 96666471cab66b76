import Winegrid.Lib.CString
import Winegrid.Lib.History
import Winegrid.Lib.Machine
import Mathlib.Tactic.SplitIfs

/-!
# The update script

`ota_update.py` as a machine: one step is one thing that the script awaits,
with how it ended.  Every one of them may raise, and every request may be
answered with an error.  `wait_for_device` stands in the program twice, before
the upload and after the reset.

The log holds everything that was awaited, oldest first.

* `Allowed` is what must have happened before.
* `Pc.holds` tells where a connection is open, `PcInv` what of the update is
  done at each place, and `Pc.resetStep` how far the script is with the new
  connection after the reset.
* `next_orderly` is the step lemma, and `update_lawful` the run law: the
  connections are closed one by one, whatever raises, and the script ends well
  only with an image that it uploaded, confirmed and started, and found alive
  on a new connection.
-/

namespace Winegrid.OtaUpdate

/-! ## The script -/

/-- What the script reads of the state of an image. -/
structure Image where
  slot : Nat
  hash : Bytes
  deriving DecidableEq

inductive Request where
  | echoWrite (d : Bytes)
  | imageStatesRead
  | imageStatesWrite (hash : Bytes) (confirm : Bool)
  | resetWrite
  deriving DecidableEq

/-- What is awaited. -/
inductive Op where
  | connect
  | disconnect
  | sleep (ms : Nat)
  /-- The next offset of the upload. -/
  | upload (image : Bytes) (slot : Nat)
  | request (r : Request)
  deriving DecidableEq

/-- How it ended.  The upload ends with `done` after its last offset. -/
inductive Answer where
  | raised
  | error
  | done
  | offset (n : Nat)
  | echo (r : Bytes)
  | images (images : List Image)
  deriving DecidableEq

abbrev Entry := Op × Answer

/-- Where the script waits.  Of the places of `wait_for_device`, `rebooted`
tells the second call from the first. -/
inductive Pc where
  | connecting (rebooted : Bool)
  | readyCheck (rebooted : Bool)
  | dropping (rebooted : Bool)
  | polling (rebooted : Bool)
  | uploading
  | readStates
  | testing (hash : Bytes)
  | confirming (hash : Bytes)
  | resetting
  /-- The first `finally`, with an exception on its way or not. -/
  | closing (raising : Bool)
  | rebooting
  | postCheck
  | listStates
  /-- The second one. -/
  | closingAfter (raising : Bool)
  | returned
  | raised
  deriving DecidableEq

structure Script where
  image : Bytes
  tryTestMode : Bool
  pc : Pc
  now : Nat
  deadline : Nat
  log : List Entry
  deriving DecidableEq

def reconnectTimeoutMs : Nat := 30000
def reconnectPollMs : Nat := 1000

def readyText : Bytes := ascii "ready-check"
def postText : Bytes := ascii "post-ota-check"

/-- What the script awaits at each place. -/
def Pc.awaits (image : Bytes) : Pc → Option Op
  | .connecting _ => some .connect
  | .readyCheck _ => some (.request (.echoWrite readyText))
  | .dropping _ => some .disconnect
  | .polling _ => some (.sleep reconnectPollMs)
  | .uploading => some (.upload image 1)
  | .readStates => some (.request .imageStatesRead)
  | .testing hash => some (.request (.imageStatesWrite hash false))
  | .confirming hash => some (.request (.imageStatesWrite hash true))
  | .resetting => some (.request .resetWrite)
  | .closing _ => some .disconnect
  | .rebooting => some (.sleep 3000)
  | .postCheck => some (.request (.echoWrite postText))
  | .listStates => some (.request .imageStatesRead)
  | .closingAfter _ => some .disconnect
  | .returned => none
  | .raised => none

/-- The answers that an operation can have. -/
def Op.fits (ms : Nat) : Op → Answer → Bool
  | .connect, .done | .connect, .raised => true
  | .disconnect, .done | .disconnect, .raised => true
  | .sleep d, .done => decide (d ≤ ms)
  | .upload _ _, .offset _ | .upload _ _, .done | .upload _ _, .raised => true
  | .request _, .error | .request _, .raised => true
  | .request (.echoWrite _), .echo _ => true
  | .request .imageStatesRead, .images _ => true
  | .request (.imageStatesWrite _ _), .done => true
  | .request .resetWrite, .done => true
  | _, _ => false

/-- `get_secondary_slot_hash`, for a response that is no error. -/
def slotHash (images : List Image) : Option Bytes :=
  (images.find? fun image => image.slot = 1).map Image.hash

namespace Script

def goto (s : Script) (pc : Pc) : Script := { s with pc := pc }

/-- The head of the loop of `wait_for_device`. -/
def attempt (s : Script) (rebooted : Bool) : Script :=
  if s.now < s.deadline then s.goto (.connecting rebooted) else s.goto .raised

/-- The entry of `wait_for_device`. -/
def waitForDevice (s : Script) (rebooted : Bool) : Script :=
  { s with deadline := s.now + reconnectTimeoutMs }.attempt rebooted

/-- How the script goes on. -/
def resume (s : Script) (answer : Answer) : Script :=
  match s.pc with
  | .connecting rebooted =>
    if answer = .done then s.goto (.readyCheck rebooted) else s.goto (.polling rebooted)
  | .readyCheck rebooted =>
    match answer with
    | .echo _ => s.goto (if rebooted then .postCheck else .uploading)
    | _ => s.goto (.dropping rebooted)
  | .dropping rebooted => if answer = .done then s.goto (.polling rebooted) else s.goto .raised
  | .polling rebooted => s.attempt rebooted
  | .uploading =>
    match answer with
    | .offset _ => s
    | .done => s.goto .readStates
    | _ => s.goto (.closing true)
  | .readStates =>
    match answer with
    | .images images =>
      match slotHash images with
      | some hash => s.goto (if s.tryTestMode then .testing hash else .confirming hash)
      | none => s.goto (.closing true)
    | _ => s.goto (.closing true)
  | .testing hash => if answer = .raised then s.goto (.closing true) else s.goto (.confirming hash)
  | .confirming _ => if answer = .done then s.goto .resetting else s.goto (.closing true)
  | .resetting => s.goto (.closing (answer ≠ .done))
  | .closing raising =>
    if answer = .done ∧ raising = false then s.goto .rebooting else s.goto .raised
  | .rebooting => s.waitForDevice true
  | .postCheck =>
    if answer = .echo postText then s.goto .listStates else s.goto (.closingAfter true)
  | .listStates =>
    match answer with
    | .images _ => s.goto (.closingAfter false)
    | _ => s.goto (.closingAfter true)
  | .closingAfter raising =>
    if answer = .done ∧ raising = false then s.goto .returned else s.goto .raised
  | .returned => s
  | .raised => s

/-- What is awaited ends after `ms` milliseconds. -/
def next (s : Script) (l : Nat × Answer) : Option Script :=
  (s.pc.awaits s.image).bind fun op =>
    if op.fits l.1 l.2 then
      some ({ s with now := s.now + l.1, log := s.log ++ [(op, l.2)] }.resume l.2)
    else none

/-- `main`.  Without the file nothing is done. -/
def start (image : Option Bytes) (tryTestMode : Bool) (now : Nat) : Script :=
  match image with
  | none => ⟨[], tryTestMode, .raised, now, now, []⟩
  | some image => (⟨image, tryTestMode, .raised, now, now, []⟩ : Script).waitForDevice false

end Script

/-- The script, and whatever it meets. -/
def script : Machine Script (Nat × Answer) where
  init s := ∃ image tryTestMode now, s = Script.start image tryTestMode now
  next := Script.next

/-! ## The law -/

/-- The connections that were opened. -/
def opened (log : List Entry) : Nat := log.countP fun e => e = (.connect, .done)

/-- The calls of `disconnect`. -/
def closed (log : List Entry) : Nat := log.countP fun e => e.1 = .disconnect

/-- What of the log is about the update. -/
def isMilestone : Entry → Bool
  | (.upload _ _, .done) => true
  | (.request (.echoWrite d), _) => decide (d = postText)
  | (.request _, _) => true
  | _ => false

def milestones (log : List Entry) : List Entry := log.filter isMilestone

/-- The image is in slot 1, and `hash` is what the device says its hash is. -/
def Chosen (image hash : Bytes) (done : List Entry) : Prop :=
  ∃ images, slotHash images = some hash ∧
    done = [(.upload image 1, .done), (.request .imageStatesRead, .images images)]

/-- The same, after the test boot was tried or was not. -/
def Tested (image hash : Bytes) (done : List Entry) : Prop :=
  Chosen image hash done ∨ ∃ before answer, Chosen image hash before ∧
    done = before ++ [(.request (.imageStatesWrite hash false), answer)]

def Confirmed (image : Bytes) (done : List Entry) : Prop :=
  ∃ hash before, Tested image hash before ∧
    done = before ++ [(.request (.imageStatesWrite hash true), .done)]

def Started (image : Bytes) (done : List Entry) : Prop :=
  ∃ before, Confirmed image before ∧ done = before ++ [(.request .resetWrite, .done)]

/-- The device answers after the reset. -/
def Alive (image : Bytes) (done : List Entry) : Prop :=
  ∃ before, Started image before ∧
    done = before ++ [(.request (.echoWrite postText), .echo postText)]

def Completed (image : Bytes) (done : List Entry) : Prop :=
  ∃ before images, Alive image before ∧
    done = before ++ [(.request .imageStatesRead, .images images)]

/-- The reset, the end of its connection, and a new one. -/
def resetSteps : List Entry :=
  [(.request .resetWrite, .done), (.disconnect, .done), (.connect, .done)]

/-- A connection was opened after the one of the reset was closed. -/
def Reconnected (log : List Entry) : Prop := resetSteps.Sublist log

/-- What must have happened before the script awaits `op`: nothing is sent but
over the one connection that is open, and every step of the update follows the
steps before it.  The steps after the reset go over a new connection. -/
def Allowed (image : Bytes) (past : List Entry) (e : Entry) : Prop :=
  match e.1 with
  | .connect | .sleep _ => opened past = closed past
  | .disconnect => opened past = closed past + 1
  | .upload sent slot =>
    opened past = closed past + 1 ∧ sent = image ∧ slot = 1 ∧ milestones past = []
  | .request r =>
    opened past = closed past + 1 ∧
      match r with
      | .echoWrite d =>
        d = readyText ∨ d = postText ∧ Started image (milestones past) ∧ Reconnected past
      | .imageStatesRead =>
        milestones past = [(.upload image 1, .done)] ∨
          Alive image (milestones past) ∧ Reconnected past
      | .imageStatesWrite hash confirm =>
        if confirm then Tested image hash (milestones past)
        else Chosen image hash (milestones past)
      | .resetWrite => Confirmed image (milestones past)

/-- Where a connection is open. -/
def Pc.holds : Pc → Bool
  | .connecting _ | .polling _ | .rebooting | .returned | .raised => false
  | _ => true

/-- What of the update is done at each place. -/
def PcInv (image : Bytes) (done : List Entry) : Pc → Prop
  | .connecting rebooted | .readyCheck rebooted | .dropping rebooted | .polling rebooted =>
    if rebooted then Started image done else done = []
  | .uploading => done = []
  | .readStates => done = [(.upload image 1, .done)]
  | .testing hash => Chosen image hash done
  | .confirming hash => Tested image hash done
  | .resetting => Confirmed image done
  | .closing raising => raising = false → Started image done
  | .rebooting | .postCheck => Started image done
  | .listStates => Alive image done
  | .closingAfter raising => raising = false → Completed image done
  | .returned => Completed image done
  | .raised => True

/-- How many of `resetSteps` are taken at each place.  A connection that does
not answer the ready check is dropped, which takes one back. -/
def Pc.resetStep : Pc → Nat
  | .closing false => 1
  | .rebooting | .connecting true | .polling true => 2
  | .readyCheck true | .dropping true | .postCheck | .listStates | .closingAfter false
  | .returned => 3
  | _ => 0

/-- The invariant of the runs. -/
structure Orderly (s : Script) : Prop where
  law : Lawful (Allowed s.image) s.log
  balance : opened s.log = closed s.log + if s.pc.holds then 1 else 0
  done : PcInv s.image (milestones s.log) s.pc
  renewed : (resetSteps.take s.pc.resetStep).Sublist s.log

/-! ## What a step does -/

/-- The kinds of step. -/
inductive Move (image : Bytes) : Pc → Entry → Pc → Prop where
  | connects {b : Bool} : Move image (.connecting b) (.connect, .done) (.readyCheck b)
  | unreachable {b : Bool} : Move image (.connecting b) (.connect, .raised) (.polling b)
  | ready {b : Bool} {r : Bytes} : Move image (.readyCheck b)
      (.request (.echoWrite readyText), .echo r) (if b then .postCheck else .uploading)
  | mute {b : Bool} {a : Answer} :
      Move image (.readyCheck b) (.request (.echoWrite readyText), a) (.dropping b)
  | drops {b : Bool} : Move image (.dropping b) (.disconnect, .done) (.polling b)
  | dropFails {b : Bool} : Move image (.dropping b) (.disconnect, .raised) .raised
  | retries {b : Bool} : Move image (.polling b) (.sleep reconnectPollMs, .done) (.connecting b)
  | givesUp {b : Bool} : Move image (.polling b) (.sleep reconnectPollMs, .done) .raised
  | progress {n : Nat} : Move image .uploading (.upload image 1, .offset n) .uploading
  | uploaded : Move image .uploading (.upload image 1, .done) .readStates
  | chooses {images : List Image} {hash : Bytes} {pc : Pc} (h : slotHash images = some hash)
      (hpc : pc = .testing hash ∨ pc = .confirming hash) :
      Move image .readStates (.request .imageStatesRead, .images images) pc
  | tries {hash : Bytes} {a : Answer} : Move image (.testing hash)
      (.request (.imageStatesWrite hash false), a) (.confirming hash)
  | confirms {hash : Bytes} : Move image (.confirming hash)
      (.request (.imageStatesWrite hash true), .done) .resetting
  | resets : Move image .resetting (.request .resetWrite, .done) (.closing false)
  | fails {pc : Pc} {e : Entry} (hop : pc.awaits image = some e.1) (hholds : pc.holds = true)
      (hconnect : e.1 ≠ .connect) (hdisconnect : e.1 ≠ .disconnect) :
      Move image pc e (.closing true)
  | closes : Move image (.closing false) (.disconnect, .done) .rebooting
  | closeRaises {b : Bool} {a : Answer} : Move image (.closing b) (.disconnect, a) .raised
  | reboots : Move image .rebooting (.sleep 3000, .done) (.connecting true)
  | alive : Move image .postCheck (.request (.echoWrite postText), .echo postText) .listStates
  | lists {images : List Image} : Move image .listStates
      (.request .imageStatesRead, .images images) (.closingAfter false)
  | failsAfter {pc : Pc} {e : Entry} (hop : pc.awaits image = some e.1) (hholds : pc.holds = true)
      (hconnect : e.1 ≠ .connect) (hdisconnect : e.1 ≠ .disconnect) :
      Move image pc e (.closingAfter true)
  | ends : Move image (.closingAfter false) (.disconnect, .done) .returned
  | endRaises {b : Bool} {a : Answer} : Move image (.closingAfter b) (.disconnect, a) .raised

variable {s t : Script} {l : Nat × Answer} {image : Bytes}

/-- Every step is of one of the kinds. -/
theorem next_move (h : s.next l = some t) :
    ∃ e, s.pc.awaits s.image = some e.1 ∧ Move s.image s.pc e t.pc ∧ t.log = s.log ++ [e] ∧
      t.image = s.image := by
  obtain ⟨op, hop, h⟩ := Option.bind_eq_some_iff.mp h
  split_ifs at h with hfits
  cases h
  obtain ⟨ms, a⟩ := l
  refine ⟨(op, a), hop, ?_⟩
  cases hpc : s.pc with
  | connecting b =>
    rw [hpc] at hop
    cases hop
    cases a with
    | done => exact ⟨.connects, rfl, rfl⟩
    | raised => exact ⟨.unreachable, rfl, rfl⟩
    | _ => cases hfits
  | readyCheck b =>
    rw [hpc] at hop
    cases hop
    cases a with
    | echo r => exact ⟨.ready, rfl, rfl⟩
    | error | raised => exact ⟨.mute, rfl, rfl⟩
    | _ => cases hfits
  | dropping b =>
    rw [hpc] at hop
    cases hop
    cases a with
    | done => exact ⟨.drops, rfl, rfl⟩
    | raised => exact ⟨.dropFails, rfl, rfl⟩
    | _ => cases hfits
  | polling b =>
    rw [hpc] at hop
    cases hop
    cases a with
    | done =>
      simp only [Script.resume, Script.attempt]
      split_ifs
      · exact ⟨.retries, rfl, rfl⟩
      · exact ⟨.givesUp, rfl, rfl⟩
    | _ => cases hfits
  | uploading =>
    rw [hpc] at hop
    cases hop
    cases a with
    | offset n => exact ⟨.progress, rfl, rfl⟩
    | done => exact ⟨.uploaded, rfl, rfl⟩
    | raised => exact ⟨.fails rfl rfl (by simp) (by simp), rfl, rfl⟩
    | _ => cases hfits
  | readStates =>
    rw [hpc] at hop
    cases hop
    cases a with
    | images images =>
      simp only [Script.resume]
      cases hhash : slotHash images with
      | some hash =>
        refine ⟨.chooses hhash ?_, rfl, rfl⟩
        by_cases htest : s.tryTestMode = true
        · exact Or.inl (if_pos htest)
        · exact Or.inr (if_neg htest)
      | none => exact ⟨.fails rfl rfl (by simp) (by simp), rfl, rfl⟩
    | error | raised => exact ⟨.fails rfl rfl (by simp) (by simp), rfl, rfl⟩
    | _ => cases hfits
  | testing hash =>
    rw [hpc] at hop
    cases hop
    simp only [Script.resume]
    split_ifs
    · exact ⟨.fails rfl rfl (by simp) (by simp), rfl, rfl⟩
    · exact ⟨.tries, rfl, rfl⟩
  | confirming hash =>
    rw [hpc] at hop
    cases hop
    simp only [Script.resume]
    split_ifs with hdone
    · rw [hdone]
      exact ⟨.confirms, rfl, rfl⟩
    · exact ⟨.fails rfl rfl (by simp) (by simp), rfl, rfl⟩
  | resetting =>
    rw [hpc] at hop
    cases hop
    simp only [Script.resume]
    by_cases hdone : a = .done
    · rw [hdone]
      exact ⟨.resets, rfl, rfl⟩
    · have hraising : decide (a ≠ .done) = true := decide_eq_true hdone
      rw [hraising]
      exact ⟨.fails rfl rfl (by simp) (by simp), rfl, rfl⟩
  | closing b =>
    rw [hpc] at hop
    cases hop
    simp only [Script.resume]
    split_ifs with hdone
    · rw [hdone.1, hdone.2]
      exact ⟨.closes, rfl, rfl⟩
    · exact ⟨.closeRaises, rfl, rfl⟩
  | rebooting =>
    rw [hpc] at hop
    cases hop
    cases a with
    | done =>
      simp only [Script.resume, Script.waitForDevice, Script.attempt]
      rw [if_pos (by simp [reconnectTimeoutMs])]
      exact ⟨.reboots, rfl, rfl⟩
    | _ => cases hfits
  | postCheck =>
    rw [hpc] at hop
    cases hop
    simp only [Script.resume]
    split_ifs with hecho
    · rw [hecho]
      exact ⟨.alive, rfl, rfl⟩
    · exact ⟨.failsAfter rfl rfl (by simp) (by simp), rfl, rfl⟩
  | listStates =>
    rw [hpc] at hop
    cases hop
    cases a with
    | images images => exact ⟨.lists, rfl, rfl⟩
    | error | raised => exact ⟨.failsAfter rfl rfl (by simp) (by simp), rfl, rfl⟩
    | _ => cases hfits
  | closingAfter b =>
    rw [hpc] at hop
    cases hop
    simp only [Script.resume]
    split_ifs with hdone
    · rw [hdone.1, hdone.2]
      exact ⟨.ends, rfl, rfl⟩
    · exact ⟨.endRaises, rfl, rfl⟩
  | returned =>
    rw [hpc] at hop
    cases hop
  | raised =>
    rw [hpc] at hop
    cases hop

/-! ## The invariant -/

theorem opened_concat (log : List Entry) (e : Entry) :
    opened (log ++ [e]) = opened log + if e = (.connect, .done) then 1 else 0 := by
  rw [opened, opened, List.countP_append, List.countP_singleton]
  simp only [decide_eq_true_eq]

theorem closed_concat (log : List Entry) (e : Entry) :
    closed (log ++ [e]) = closed log + if e.1 = .disconnect then 1 else 0 := by
  rw [closed, closed, List.countP_append, List.countP_singleton]
  simp only [decide_eq_true_eq]

theorem milestones_concat (log : List Entry) (e : Entry) :
    milestones (log ++ [e]) = milestones log ++ if isMilestone e then [e] else [] := by
  rw [milestones, milestones, List.filter_append]
  cases h : isMilestone e <;> simp [h]

/-- The question whether the device answers is not about the update. -/
theorem ready_not_milestone (a : Answer) :
    isMilestone (.request (.echoWrite readyText), a) = false := by
  show decide (readyText = postText) = false
  decide

/-- What is awaited is allowed. -/
theorem allowed_of_awaits {log : List Entry} {pc : Pc} {e : Entry}
    (hbalance : opened log = closed log + if pc.holds then 1 else 0)
    (hdone : PcInv image (milestones log) pc)
    (hrenewed : (resetSteps.take pc.resetStep).Sublist log) (hop : pc.awaits image = some e.1) :
    Allowed image log e := by
  obtain ⟨op, a⟩ := e
  cases pc with
  | connecting b | polling b | rebooting | closing b | closingAfter b | dropping b =>
    cases hop
    exact hbalance
  | readyCheck b =>
    cases hop
    exact ⟨hbalance, Or.inl rfl⟩
  | uploading =>
    cases hop
    exact ⟨hbalance, rfl, rfl, hdone⟩
  | readStates =>
    cases hop
    exact ⟨hbalance, Or.inl hdone⟩
  | testing hash | confirming hash | resetting =>
    cases hop
    exact ⟨hbalance, hdone⟩
  | postCheck =>
    cases hop
    exact ⟨hbalance, Or.inr ⟨rfl, hdone, hrenewed⟩⟩
  | listStates =>
    cases hop
    exact ⟨hbalance, Or.inr ⟨hdone, hrenewed⟩⟩
  | returned => cases hop
  | raised => cases hop

/-- A step keeps the account of the connections. -/
theorem Move.balance {log : List Entry} {pc pc' : Pc} {e : Entry} (h : Move image pc e pc')
    (hbalance : opened log = closed log + if pc.holds then 1 else 0) :
    opened (log ++ [e]) = closed (log ++ [e]) + if pc'.holds then 1 else 0 := by
  rw [opened_concat, closed_concat, hbalance]
  cases h with
  | @ready b r => cases b <;> rfl
  | @chooses images hash pc' hhash hpc =>
    rcases hpc with hpc | hpc
    · rw [hpc]
      rfl
    · rw [hpc]
      rfl
  | fails hop hholds hconnect hdisconnect | failsAfter hop hholds hconnect hdisconnect =>
    have hnot : e ≠ (.connect, .done) := fun heq => hconnect (congrArg Prod.fst heq)
    rw [hholds, if_neg hnot, if_neg hdisconnect]
    rfl
  | _ => rfl

/-- A step keeps what is done of the update. -/
theorem Move.done {log : List Entry} {pc pc' : Pc} {e : Entry} (h : Move image pc e pc')
    (hdone : PcInv image (milestones log) pc) : PcInv image (milestones (log ++ [e])) pc' := by
  rw [milestones_concat]
  cases h with
  | connects | unreachable | drops | retries | reboots =>
    rw [if_neg (by decide), List.append_nil]
    exact hdone
  | @progress n =>
    have hnot : isMilestone (.upload image 1, .offset n) = false := rfl
    rw [hnot, if_neg (by decide), List.append_nil]
    exact hdone
  | @ready b r =>
    rw [ready_not_milestone, if_neg (by decide), List.append_nil]
    cases b
    · exact hdone
    · exact hdone
  | @mute b a =>
    rw [ready_not_milestone, if_neg (by decide), List.append_nil]
    exact hdone
  | dropFails | givesUp | closeRaises | endRaises => trivial
  | uploaded =>
    have hnil : milestones log = [] := hdone
    rw [hnil]
    rfl
  | @chooses images hash pc' hhash hpc =>
    have hread : milestones log = [(.upload image 1, .done)] := hdone
    rw [hread]
    have hchosen : Chosen image hash
        [(.upload image 1, .done), (.request .imageStatesRead, .images images)] :=
      ⟨images, hhash, rfl⟩
    rcases hpc with hpc | hpc
    · rw [hpc]
      exact hchosen
    · rw [hpc]
      exact Or.inl hchosen
  | @tries hash a => exact Or.inr ⟨_, a, hdone, rfl⟩
  | @confirms hash => exact ⟨hash, _, hdone, rfl⟩
  | resets => exact fun _ => ⟨_, hdone, rfl⟩
  | closes =>
    rw [if_neg (by decide), List.append_nil]
    exact hdone rfl
  | alive => exact ⟨_, hdone, rfl⟩
  | @lists images => exact fun _ => ⟨_, images, hdone, rfl⟩
  | fails | failsAfter => exact fun h => absurd h (by decide)
  | ends =>
    rw [if_neg (by decide), List.append_nil]
    exact hdone rfl

/-- A step takes at most the next one of `resetSteps`. -/
theorem Move.resetStep {pc pc' : Pc} {e : Entry} (h : Move image pc e pc') :
    pc'.resetStep ≤ pc.resetStep ∨
      resetSteps.take pc'.resetStep = resetSteps.take pc.resetStep ++ [e] := by
  cases h with
  | @connects b =>
    cases b
    · exact Or.inl (Nat.le_refl 0)
    · exact Or.inr rfl
  | resets | closes => exact Or.inr rfl
  | @unreachable b | @mute b a | @retries b =>
    left
    cases b <;> exact Nat.le_refl _
  | @ready b r =>
    left
    cases b <;> exact Nat.le_refl _
  | @drops b =>
    left
    cases b <;> decide
  | chooses hhash hpc =>
    rcases hpc with hpc | hpc
    · rw [hpc]
      exact Or.inl (Nat.zero_le _)
    · rw [hpc]
      exact Or.inl (Nat.zero_le _)
  | reboots | alive | lists | ends => exact Or.inl (Nat.le_refl _)
  | _ => exact Or.inl (Nat.zero_le _)

theorem Move.renewed {log : List Entry} {pc pc' : Pc} {e : Entry} (h : Move image pc e pc')
    (hrenewed : (resetSteps.take pc.resetStep).Sublist log) :
    (resetSteps.take pc'.resetStep).Sublist (log ++ [e]) := by
  rcases h.resetStep with hle | hnext
  · have hfewer : (resetSteps.take pc'.resetStep).Sublist (resetSteps.take pc.resetStep) :=
      (List.take_prefix_take_left hle).sublist
    exact (hfewer.trans hrenewed).trans (List.sublist_append_left log [e])
  · rw [hnext]
    exact hrenewed.append (.refl _)

/-- Every step keeps the invariant. -/
theorem next_orderly (h : Orderly s) (hnext : s.next l = some t) : Orderly t := by
  obtain ⟨e, hop, hmove, hlog, himage⟩ := next_move hnext
  refine ⟨?_, ?_, ?_, ?_⟩
  · rw [hlog, himage]
    exact lawful_concat.mpr ⟨h.law, allowed_of_awaits h.balance h.done h.renewed hop⟩
  · rw [hlog]
    exact hmove.balance h.balance
  · rw [hlog, himage]
    exact hmove.done h.done
  · rw [hlog]
    exact hmove.renewed h.renewed

theorem start_orderly (image : Option Bytes) (tryTestMode : Bool) (now : Nat) :
    Orderly (Script.start image tryTestMode now) := by
  cases image with
  | none => exact ⟨lawful_nil, rfl, trivial, .slnil⟩
  | some image =>
    simp only [Script.start, Script.waitForDevice, Script.attempt]
    rw [if_pos (by simp [reconnectTimeoutMs])]
    exact ⟨lawful_nil, rfl, rfl, .slnil⟩

/-- However the awaited operations end, one connection is open at a time and
every one is closed once, a step of the update is taken only after the steps
before it went well, those after the reset over a new connection, and the script
returns only after all of them. -/
theorem update_lawful (h : script.Reachable s) :
    Lawful (Allowed s.image) s.log ∧
      opened s.log = closed s.log + (if s.pc.holds then 1 else 0) ∧
      (s.pc = .returned → Completed s.image (milestones s.log) ∧ Reconnected s.log) := by
  have hinv : Orderly s := by
    refine h.invariant (I := Orderly) ?_ fun _ _ _ _ hs _ hnext => next_orderly hs hnext
    intro s ⟨image, tryTestMode, now, hs⟩
    rw [hs]
    exact start_orderly image tryTestMode now
  refine ⟨hinv.law, hinv.balance, fun hpc => ?_⟩
  have hdone := hinv.done
  have hrenewed := hinv.renewed
  rw [hpc] at hdone hrenewed
  exact ⟨hdone, hrenewed⟩

/-- The device answers the second time that it is tried, refuses the test boot,
and is updated. -/
def updates : List (Nat × Answer) :=
  [ (0, .raised), (1000, .done), (5, .done), (2, .echo readyText)
  , (90, .offset 1), (90, .offset 2), (0, .done), (1, .images [⟨0, [7]⟩, ⟨1, [9]⟩])
  , (1, .error), (1, .done), (1, .done), (0, .done), (3000, .done)
  , (5, .done), (2, .echo readyText), (2, .echo postText), (1, .images [⟨0, [9]⟩]), (0, .done) ]

theorem update_lawful_sample : ∃ s, script.exec (Script.start (some [1, 2]) true 0) updates =
    some s ∧ s.pc = .returned ∧ opened s.log = 2 ∧ closed s.log = 2 ∧
    Completed s.image (milestones s.log) ∧ Reconnected s.log := by
  obtain ⟨s, hexec, hpc, hopened⟩ := Machine.exists_of_any
    (p := fun s : Script => s.pc = .returned ∧ opened s.log = 2)
    (o := script.exec (Script.start (some [1, 2]) true 0) updates) (by decide +kernel)
  have hlawful := update_lawful (Machine.Reachable.exec (.init ⟨_, _, _, rfl⟩) hexec)
  have hbalance := hlawful.2.1
  rw [hpc, hopened] at hbalance
  exact ⟨s, hexec, hpc, hopened, hbalance.symm, hlawful.2.2 hpc⟩

end Winegrid.OtaUpdate
