import Winegrid.ThingsBoard.Integrity

/-!
# One package from the offer to the boot partition

The five attributes of a firmware package arrive in any number of payloads,
at any time, and each is written to a variable of its own.  The package that
a download started with is therefore only the package that it installs when
the five variables held one package at the start and were left alone until
the end.

* `KeepsPackage` is that condition, on one payload of attributes and the state
  it meets.
* `packageInv_next` is the step lemma, and `installs_one_package` the law of
  the runs whose payloads meet the condition.
* `renamed_package_installed` is a run in which the package is renamed while
  it is downloaded.
-/

namespace Winegrid.ThingsBoard

open Esp Client

variable {P : Platform} {published : Package → Prop} {c c' : Client} {l : Label}

/-! ## Packages -/

/-- The globals hold the package, uncut. -/
structure Describes (fw : FwInfo) (p : Package) : Prop where
  title : fw.title = p.title
  version : fw.version = p.version
  size : fw.size = p.size
  checksum : fw.checksum = p.checksum
  checksumAlgorithm : fw.checksumAlgorithm = p.checksumAlgorithm

/-- The keys of the five attributes. -/
def fwKeys : List Bytes :=
  [ ascii "fw_title", ascii "fw_version", ascii "fw_size", ascii "fw_checksum"
  , ascii "fw_checksum_algorithm" ]

/-- Every firmware attribute in a payload is one of a published package. -/
def ServerPublishes (P : Platform) (published : Package → Prop) (_ : Client) : Label → Prop
  | .event _ (.data topic payload) =>
    startsWith topic fwTopicPrefix = false → startsWith topic rpcRequestTopicPrefix = false →
      ∀ root, P.parse payload = some root → ∀ key value,
        (some key, value) ∈ (container root).children → key ∈ fwKeys →
          ∃ p, published p ∧ (key, value) ∈ p.members
  | _ => True

/-- Attributes that meet a download leave the five variables as they are, and
attributes after which a download starts leave one published package in
them. -/
def KeepsPackage (P : Platform) (published : Package → Prop) (c : Client) : Label → Prop
  | .event o (.data topic payload) =>
    startsWith topic fwTopicPrefix = false → startsWith topic rpcRequestTopicPrefix = false →
      ∀ root, P.parse payload = some root →
        (c.dl.inProgress = true → (c.applyAttributes (container root).children).fw = c.fw) ∧
        ((c.applyAttributes (container root).children).halt = none →
          (c.applyAttributes (container root).children).wantsUpdate = true →
          StartsDownload (c.applyAttributes (container root).children) o →
            ∃ p, published p ∧ Describes (c.applyAttributes (container root).children).fw p)
  | _ => True

/-- When a step sets the boot partition, one published package is behind what
NVS holds under `pending_fw`, what is reported as `UPDATED`, and what the image
was verified against. -/
def InstallsOnePackage (P : Platform) (published : Package → Prop) (c c' : Client) : Prop :=
  ∀ slot version, .setBoot slot version true ∈ c.journal.since c'.journal →
    ∃ p, published p ∧ c'.journal.disk.nvs .pendingFw = some p.version ∧
      [.setBoot slot version true, .publish telemetryTopic (updatedPayload p.title p.version)]
        <:+ c.journal.since c'.journal ∧
      ((c'.journal.disk.app slot).length : Int) = p.size.toInt ∧
      strcaseeq (hexLower (P.sha256 (c'.journal.disk.app slot))) p.checksum = true ∧
      strcaseeq p.checksumAlgorithm (ascii "SHA256") = true

/-- The invariant: a download is of the package in the variables, and NVS
holds its version. -/
structure PackageInv (P : Platform) (published : Package → Prop) (c : Client) : Prop where
  sound : Sound P c
  package : c.halt = none → c.dl.inProgress = true →
    ∃ p, published p ∧ Describes c.fw p ∧ c.journal.disk.nvs .pendingFw = some p.version

/-! ## Steps -/

/-- The download that starts is of the package in the variables. -/
theorem startFwUpdate_package {o : Outcomes} (hidle : c.dl.inProgress = false)
    (hp : StartsDownload c o → ∃ p, published p ∧ Describes c.fw p)
    (hbusy : (c.startFwUpdate o).dl.inProgress = true) :
    ∃ p, published p ∧ Describes (c.startFwUpdate o).fw p ∧
      (c.startFwUpdate o).journal.disk.nvs .pendingFw = some p.version := by
  rcases startFwUpdate_cases c o with ⟨-, q, payload, -, heq⟩ | ⟨hstarts, heq⟩
  · rw [heq] at hbusy
    exact absurd (hidle.symm.trans hbusy) (by decide)
  · obtain ⟨p, hpub, hdesc⟩ := hp hstarts
    rw [heq, beginDownload_eq]
    refine ⟨p, hpub, hdesc, ?_⟩
    simp [startEffects, Journal.writes_cons, setPartition, fwReport, Flash.apply, hdesc.version]

/-- One more chunk changes neither the variables nor NVS. -/
theorem nextChunk_package {data : Bytes} {p : Package} (hdesc : Describes c.fw p)
    (hnvs : c.journal.disk.nvs .pendingFw = some p.version) :
    Describes (c.acceptChunk data).nextChunk.fw p ∧
      (c.acceptChunk data).nextChunk.journal.disk.nvs .pendingFw = some p.version :=
  ⟨hdesc, hnvs⟩

/-- Every step keeps the invariant. -/
theorem packageInv_next (h : PackageInv P published c) (hkeeps : KeepsPackage P published c l)
    (hnext : c.next P l = some c') : PackageInv P published c' := by
  refine ⟨sound_next h.sound hnext, fun hhalt' hbusy => ?_⟩
  obtain ⟨hhalt, hstep⟩ := next_step hnext
  cases hstep with
  | quiet es htalk hbuild hslot hfw hdl hota hjournal =>
    rw [hfw, hjournal, writes_talk htalk]
    exact h.package hhalt (hdl ▸ hbusy)
  | attributes htopic hparse hrpc =>
    rw [applyAttributes_dl] at hbusy
    rw [applyAttributes_journal, (hkeeps htopic hrpc _ hparse).1 hbusy]
    exact h.package hhalt hbusy
  | offer htopic hparse hparsed hwants hrpc =>
    exact startFwUpdate_package (idle_of_wantsUpdate hwants)
      ((hkeeps htopic hrpc _ hparse).2 hparsed hwants) hbusy
  | chunk htopic =>
    obtain ⟨hprog, -, -, heq⟩ := handleFwChunkData_goes_on hhalt' hbusy
    obtain ⟨p, hpub, hdesc, hnvs⟩ := h.package hhalt hprog
    rw [heq]
    exact ⟨p, hpub, nextChunk_package hdesc hnvs⟩

/-- Only a firmware message sets the boot partition. -/
theorem setBoot_chunk {slot : Slot} {version : Bytes} {ok : Bool} (hnext : c.next P l = some c')
    (hmem : .setBoot slot version ok ∈ c.journal.since c'.journal) :
    c.halt = none ∧ ∃ o data, c' = c.handleFwChunkData P o data := by
  obtain ⟨hhalt, hstep⟩ := next_step hnext
  cases hstep with
  | quiet es htalk hbuild hslot hfw hdl hota hjournal =>
    rw [hjournal, Journal.since_writes] at hmem
    exact absurd hmem (noSetBoot_of_talk htalk slot version ok)
  | attributes htopic hparse => simp at hmem
  | offer htopic hparse hhalt' hwants =>
    rw [← applyAttributes_journal c] at hmem
    exact absurd hmem (startFwUpdate_noSetBoot _ _ slot version ok)
  | chunk htopic => exact ⟨hhalt, _, _, rfl⟩

/-- A firmware message that installs an image ends a download of the right
length and digest. -/
theorem handleFwChunkData_installs {o : Outcomes} {data : Bytes} {slot : Slot} {version : Bytes}
    (hmem : .setBoot slot version true ∈ c.journal.since (c.handleFwChunkData P o data).journal) :
    c.dl.inProgress = true ∧ c.ota.canWrite c.dl.otaHandle P.partitionSize data = true ∧
      (c.acceptChunk data).dl.received = c.fw.size ∧
      checksumOk P c.fw (c.acceptChunk data).dl.shaCtx = true ∧
      c.dl.updatePartition = some slot ∧
      version = (P.build ((c.acceptChunk data).journal.disk.app slot)).version ∧
      c.handleFwChunkData P o data = (c.acceptChunk data).installed P slot := by
  rcases handleFwChunkData_cases P c o data with
    ⟨-, heq⟩ | ⟨-, heq⟩ | ⟨-, -, -, -, heq⟩ | ⟨hprog, hcan, heq⟩
  · rw [heq, Journal.since_self] at hmem
    cases hmem
  · have hfail : (c.finishFwUpdate P o false).journal = c.journal.writes [fwReport .failed] := rfl
    rw [heq, hfail, Journal.since_writes] at hmem
    simp [fwReport] at hmem
  · rw [heq] at hmem
    simp [nextChunk, requestFwChunk, emit, acceptChunk, Journal.since] at hmem
  · have haccept : c.journal.Extends (c.acceptChunk data).journal := c.journal.extends_write _
    rw [heq, Journal.since_trans haccept (finishFwUpdate_extends P _ o _), List.mem_append] at hmem
    have hmem' : .setBoot slot version true ∈ (c.acceptChunk data).journal.since
        ((c.acceptChunk data).finishFwUpdate P o
          ((c.acceptChunk data).dl.received = c.fw.size)).journal := by
      refine hmem.resolve_left fun hwrite => ?_
      simp [acceptChunk, emit, Journal.since] at hwrite
    rcases finishFwUpdate_cases P (c.acceptChunk data) o
        ((c.acceptChunk data).dl.received = c.fw.size) with
      ⟨states, -, hfin⟩ | ⟨hsize, hsum, slot', hpart, hfin | hfin⟩
    · rw [hfin, gaveUp, Journal.since_writes] at hmem'
      simp [failEffects, fwReport] at hmem'
    · rw [hfin, gaveUp, Journal.since_writes] at hmem'
      simp [failEffects, fwReport] at hmem'
    · rw [hfin, installed, Journal.since_writes] at hmem'
      simp only [installEffects, fwReport, List.mem_cons, Effect.setBoot.injEq, List.not_mem_nil,
        reduceCtorEq, and_true, false_or, or_false] at hmem'
      obtain ⟨rfl, hversion⟩ := hmem'
      exact ⟨hprog, hcan, of_decide_eq_true hsize, hsum, hpart, hversion, heq.trans hfin⟩

/-- The step that installs an image. -/
theorem next_installs_package (h : PackageInv P published c) (hnext : c.next P l = some c') :
    InstallsOnePackage P published c c' := by
  intro slot version hmem
  obtain ⟨hhalt, o, data, rfl⟩ := setBoot_chunk hnext hmem
  obtain ⟨hprog, hcan, hsize, hsum, hpart, rfl, heq⟩ := handleFwChunkData_installs hmem
  obtain ⟨p, hpub, hdesc, hnvs⟩ := h.package hhalt hprog
  obtain ⟨slot', -, hpart', hflash, -, hreceived⟩ :=
    acceptChunk_inAttempt (h.sound.busy hhalt hprog) hcan
  have hslot : slot' = slot := Option.some_inj.mp (hpart'.symm.trans hpart)
  rw [hslot] at hflash
  have hdisk : ((c.acceptChunk data).installed P slot).journal.disk.app slot =
      (c.acceptChunk data).dl.shaCtx := by
    simpa [installed, installEffects, Journal.writes_cons, fwReport, Flash.apply] using hflash
  have hpending : ((c.acceptChunk data).installed P slot).journal.disk.nvs .pendingFw =
      some p.version := hnvs
  have hsince : c.journal.since ((c.acceptChunk data).installed P slot).journal =
      c.journal.since (c.acceptChunk data).journal ++ installEffects c.fw slot
        (P.build ((c.acceptChunk data).journal.disk.app slot)).version := by
    have haccept : c.journal.Extends (c.acceptChunk data).journal := c.journal.extends_write _
    have hinstall : (c.acceptChunk data).journal.Extends
      ((c.acceptChunk data).installed P slot).journal := ⟨_, rfl⟩
    rw [Journal.since_trans haccept hinstall, installed, Journal.since_writes]
    rfl
  simp only [checksumOk, Bool.and_eq_true] at hsum
  rw [heq, hsince, hdisk]
  refine ⟨p, hpub, hpending, ?_, ?_, ?_, ?_⟩
  · rw [installEffects, hdesc.title, hdesc.version]
    exact ⟨c.journal.since (c.acceptChunk data).journal ++
      [fwReport .downloaded, fwReport .verified, fwReport .updating], by simp⟩
  · rw [← hdesc.size, ← hsize, hreceived]
  · rw [← hdesc.checksum]
    exact hsum.2
  · rw [← hdesc.checksumAlgorithm]
    exact hsum.1

/-! ## Runs -/

/-- In every run whose attributes leave the package of a download alone and
start a download only on one whole package, every step that sets the boot
partition installs, records and reports one published package. -/
theorem installs_one_package
    (h : (client P).Reach
      (fun c l => ServerPublishes P published c l ∧ KeepsPackage P published c l) c)
    (hnext : c.next P l = some c') : InstallsOnePackage P published c c' := by
  have hinv : PackageInv P published c := by
    refine h.invariant (I := PackageInv P published) ?_
      fun _ _ _ _ hs hok hnext => packageInv_next hs hok.2 hnext
    rintro c ⟨build, slot, journal, rfl⟩
    exact ⟨sound_fresh P build slot journal, fun _ hbusy => by simp [Client.fresh] at hbusy⟩
  exact next_installs_package hinv hnext

/-- The attributes of a package are at the root of its text. -/
theorem container_members (p : Package) : container (.object p.members) = .object p.members := rfl

/-- The text of a published package is what the server may publish. -/
theorem serverPublishes_text {packages : List Package} {p : Package} (hp : published p)
    (hparse : (samplePlatform packages).parse p.text = some (.object p.members)) :
    ServerPublishes (samplePlatform packages) published c
      (.event allOk (.data attributesTopic p.text)) := by
  rintro - - root hroot key value hmem -
  rw [hparse, Option.some_inj] at hroot
  rw [← hroot, container_members, CJson.children, List.mem_map] at hmem
  obtain ⟨⟨k, v⟩, hmem, heq⟩ := hmem
  cases heq
  exact ⟨p, hp, hmem⟩

/-- Version 1.8 is offered in one payload, and installed as one package. -/
theorem installs_one_package_sample :
    ∃ c', (offered [package18] package18).next (samplePlatform [package18])
        (.event allOk chunk18) = some c' ∧
      .setBoot .ota1 (ascii "1.8") true ∈
        (offered [package18] package18).journal.since c'.journal ∧
      InstallsOnePackage (samplePlatform [package18]) (· = package18)
        (offered [package18] package18) c' := by
  have hhalt : (offered [package18] package18).halt = none := by decide +kernel
  have hnext := next_event (P := samplePlatform [package18]) hhalt allOk chunk18
  have hparse : (samplePlatform [package18]).parse package18.text =
      some (.object package18.members) := samplePlatform_parse (by simp)
  have hkeeps : KeepsPackage (samplePlatform [package18]) (· = package18) sampleClient
      (.event allOk (.data attributesTopic package18.text)) := by
    rintro - - root hroot
    rw [hparse, Option.some_inj] at hroot
    subst hroot
    refine ⟨fun hbusy => absurd hbusy (by decide), fun _ _ _ => ⟨package18, rfl, ?_⟩⟩
    constructor <;> decide +kernel
  have hreach : (client (samplePlatform [package18])).Reach
      (fun c l => ServerPublishes (samplePlatform [package18]) (· = package18) c l ∧
        KeepsPackage (samplePlatform [package18]) (· = package18) c l)
      (offered [package18] package18) :=
    offered_reach [package18] package18 ⟨serverPublishes_text rfl hparse, hkeeps⟩
  exact ⟨_, hnext, by decide +kernel, installs_one_package hreach hnext⟩

/-- The same image, under another version. -/
def package181 : Package := { package18 with version := ascii "1.8.1" }

/-- Both names are published. -/
def renamePlatform : Platform := samplePlatform [package18, package181]

/-- The client that was offered 1.8, and then 1.8.1 before the chunk came. -/
def renamed : Client :=
  mqttEventHandler renamePlatform (offered [package18, package181] package18) allOk
    (.data attributesTopic package181.text)

theorem renamed_reach :
    (client renamePlatform).Reach (ServerPublishes renamePlatform (· ∈ [package18, package181]))
      renamed := by
  have hhalt : (offered [package18, package181] package18).halt = none := by decide +kernel
  have hparse : renamePlatform.parse package18.text = some (.object package18.members) :=
    samplePlatform_parse (by simp)
  have hparse' : renamePlatform.parse package181.text = some (.object package181.members) :=
    samplePlatform_parse (by decide +kernel)
  have hoffer : (client renamePlatform).Reach
      (ServerPublishes renamePlatform (· ∈ [package18, package181]))
      (offered [package18, package181] package18) :=
    offered_reach _ _ (serverPublishes_text (by simp) hparse)
  have hnext : (client renamePlatform).next (offered [package18, package181] package18)
      (.event allOk (.data attributesTopic package181.text)) = some renamed := by
    rw [client_next, next_event hhalt, renamed]
  exact hoffer.step (serverPublishes_text (by simp) hparse') hnext

/-- Version 1.8 is renamed while it is downloaded: `pending_fw` says 1.8 and
the report says 1.8.1. -/
theorem renamed_package_installed :
    ¬ ∀ c c' l,
      (client renamePlatform).Reach
        (ServerPublishes renamePlatform (· ∈ [package18, package181])) c →
      c.next renamePlatform l = some c' →
        InstallsOnePackage renamePlatform (· ∈ [package18, package181]) c c' := by
  intro h
  have hhalt : renamed.halt = none := by decide +kernel
  have hnext := next_event (P := renamePlatform) hhalt allOk chunk18
  have hrun : .setBoot .ota1 (ascii "1.8") true ∈
        renamed.journal.since (mqttEventHandler renamePlatform renamed allOk chunk18).journal ∧
      (mqttEventHandler renamePlatform renamed allOk chunk18).journal.disk.nvs .pendingFw =
        some (ascii "1.8") ∧
      .publish telemetryTopic (updatedPayload package18.title package18.version) ∉
        renamed.journal.since (mqttEventHandler renamePlatform renamed allOk chunk18).journal := by
    decide +kernel
  obtain ⟨hmem, hpending, hreport⟩ := hrun
  obtain ⟨p, hp, hnvs, hsuffix, -⟩ := h renamed _ _ renamed_reach hnext _ _ hmem
  rw [hpending, Option.some_inj] at hnvs
  rcases List.mem_pair.mp hp with rfl | rfl
  · exact hreport (hsuffix.subset (by simp))
  · exact absurd hnvs (by decide)

end Winegrid.ThingsBoard
