import Winegrid.Azure.Completes
import Winegrid.Esp.Images

/-!
# From an offer to a confirmed image

A device whose client runs gets an offer, the server at its url sends the
image, and the device restarts.  The next boot that is not cut starts the
image, confirms it, and clears the marker, so the client that comes up reports
the new version and takes no offer of it again.

* `Deployed` is such a client.
* `boots_installed` is the boot.
* `update_deploys` is the whole way.
-/

namespace Winegrid.Azure

open Esp Client

variable {P : Platform} {start : Flash → Prop} {c c₀ c₁ : Client}
  {image url version hub deviceId : Bytes}

/-- The client of the new image, which is confirmed and as good as any other. -/
structure Deployed (P : Platform) (c₀ : Client) (image version : Bytes) (c : Client) : Prop where
  build : c.build = P.build image
  slot : c.slot = c₀.slot.other
  content : c.journal.disk.app c.slot = image
  bootSlot : c.journal.disk.bootSlot = c.slot
  imgState : c.journal.disk.imgState = .valid
  base : Base c
  failed : c.journal.disk.failed = c₀.journal.disk.failed
  reports : ∀ o, ∃ topic, (c.connected o).journal.log.getLast? =
    some (.publish topic (twinPayload (P.build image) telemetryPublishIntervalMsDefault o))
  refuses : ∀ desired offered, fwOffer c.build desired ≠ some (offered, version)

/-- A version that runs is not offered. -/
theorem fwOffer_ne_current (build : Build) (desired : CJson) (url : Bytes) :
    fwOffer build desired ≠ some (url, build.version) := by
  intro h
  unfold fwOffer at h
  split at h
  · split_ifs at h with hne
    rw [Option.some_inj, Prod.mk.injEq] at h
    exact hne h.2
  · cases h

/-- The first boot of an image that was installed confirms it, and leaves the
marker cleared. -/
theorem Installed.confirmed (h : Installed c₀ image version c) (hversion : version.length ≤ 31)
    (hbuild : (P.build image).version = version) :
    (Firmware.confirm P (c.journal.write .reset)).disk =
      { c.journal.disk with
        nvs := Function.update c₀.journal.disk.nvs .pendingFw none
        imgState := .valid } := by
  have hrunning : P.version (c.journal.disk.app c.journal.disk.bootSlot) = version := by
    rw [h.bootSlot, h.image]
    exact hbuild
  have hpending : c.journal.disk.pending = some version :=
    loadNvsStr_eq_some.mpr ⟨by rw [h.nvs, Function.update_self], by omega⟩
  have hconfirm := confirm_new (P := P) (j := c.journal.write .reset) h.imgState
    (hpending.trans (congrArg some hrunning.symm))
  have hnvs : Function.update c.journal.disk.nvs .pendingFw none =
      Function.update c₀.journal.disk.nvs .pendingFw none := by
    rw [h.nvs, Function.update_idem]
  rw [hconfirm, ← hnvs]
  rfl

/-- The bootloader takes the slot of the image. -/
theorem Installed.bootSelect (h : Installed c₀ image version c) :
    c.journal.disk.bootSelect = c₀.slot.other := by
  rw [Flash.bootSelect, h.imgState, if_neg (by decide)]
  exact h.bootSlot

/-- A registered device connects to its hub. -/
theorem startup_registered {nvs : Nvs} {answers : StartOutcomes}
    (hhub : loadNvsStr nvs .assignedHub 128 = some hub)
    (hdevice : loadNvsStr nvs .deviceId 128 = some deviceId) (htoken : answers.sasToken = true) :
    startup answers (Function.update nvs .pendingFw none) = ([.call .syncTime], true) := by
  have hload : ∀ key, key ≠ .pendingFw →
      loadNvsStr (Function.update nvs .pendingFw none) key 128 = loadNvsStr nvs key 128 := by
    intro key hkey
    rw [loadNvsStr, loadNvsStr, Function.update_of_ne hkey]
  simp only [startup, hload .assignedHub (by decide), hload .deviceId (by decide), hhub, hdevice,
    htoken]

/-- The first boot of an image that was installed. -/
theorem boots_installed (h : Installed c₀ image version c) (hversion : version.length ≤ 31)
    (hbuild : (P.build image).version = version)
    (hhub : loadNvsStr c₀.journal.disk.nvs .assignedHub 128 = some hub)
    (hdevice : loadNvsStr c₀.journal.disk.nvs .deviceId 128 = some deviceId)
    {answers : StartOutcomes} (htoken : answers.sasToken = true) :
    ∃ c', ((firmware P).device P start).exec (.up c) [.reset, .done (.boot answers)] =
      some (.up c') ∧ Deployed P c₀ image version c' := by
  let j := c.journal.write .reset
  have hconfirm := h.confirmed hversion hbuild
  have hselect : j.disk.bootSelect = c₀.slot.other := h.bootSelect
  have hbooted : Firmware.bootBuild P j = P.build image := by
    rw [Firmware.bootBuild, hselect]
    exact congrArg P.build h.image
  have hstartup : startup answers (Firmware.confirm P j).disk.nvs = ([.call .syncTime], true) := by
    rw [hconfirm]
    exact startup_registered hhub hdevice htoken
  have hmain : (firmware P).appMain P answers j =
      (Firmware.confirm P j).writes [.call .syncTime, .call .clientStart] := by
    simp only [Firmware.appMain, firmware, hstartup]
    rfl
  have hlast : ((firmware P).appMain P answers j).disk = (Firmware.confirm P j).disk := by
    rw [hmain]
    rfl
  rw [hconfirm] at hlast
  refine ⟨(firmware P).fresh (Firmware.bootBuild P j) j.disk.bootSelect
    ((firmware P).appMain P answers j), ?_, ?_⟩
  · have hboot : (firmware P).boot P answers j = .up ((firmware P).fresh (Firmware.bootBuild P j)
        j.disk.bootSelect ((firmware P).appMain P answers j)) := by
      rw [Firmware.boot, if_pos]
      simp only [firmware, hstartup]
    rw [← hboot]
    rfl
  · refine ⟨hbooted, hselect, ?_, ?_, ?_, ⟨rfl, ?_, rfl⟩, ?_, fun o => ?_, fun desired url => ?_⟩
    · show ((firmware P).appMain P answers j).disk.app j.disk.bootSelect = image
      rw [hlast, hselect]
      exact h.image
    · show ((firmware P).appMain P answers j).disk.bootSlot = j.disk.bootSelect
      rw [hlast, hselect]
      exact h.bootSlot
    · show ((firmware P).appMain P answers j).disk.imgState = .valid
      rw [hlast]
    · show ((firmware P).appMain P answers j).disk.nvs .pendingFw = none
      rw [hlast]
      exact Function.update_self NvsKey.pendingFw none c₀.journal.disk.nvs
    · show ((firmware P).appMain P answers j).disk.failed = c₀.journal.disk.failed
      rw [hlast]
      simp [Flash.failed, loadNvsStr]
    · rw [← hbooted]
      exact ⟨_, List.getLast?_concat⟩
    · rw [← hbuild, ← hbooted]
      exact fwOffer_ne_current _ desired url

/-- A device whose client has no attempt gets an offer, and the server at the
url sends an image of the version.  Once the device restarts, the next boot
starts the image and confirms it, and its client is as good as new: it reports
the version, and takes no offer of it. -/
theorem update_deploys {e : Event} {o : Outcomes} {answers : StartOutcomes} {ls : List Label}
    (hreach : ((firmware P).device P ShortPending).Reachable (.up c₀)) (hidle : c₀.tasks = [])
    (hhub : loadNvsStr c₀.journal.disk.nvs .assignedHub 128 = some hub)
    (hdevice : loadNvsStr c₀.journal.disk.nvs .deviceId 128 = some deviceId)
    (hstart : startedBy P c₀ e = some (url, version)) (hcreate : o.taskCreate = true)
    (hurl : 10 ∉ url) (hversion : version.length ≤ 31) (hroom : image.length ≤ P.partitionSize)
    (hbuild : (P.build image).version = version)
    (hoffer : c₀.next P (.event o e) = some c₁)
    (hrun : (client P).Run (Honest P image url) c₁ ls c) (hrestart : c.halt = some .restart)
    (htoken : answers.sasToken = true) :
    ∃ c', ((firmware P).device P ShortPending).exec (.up c) [.reset, .done (.boot answers)] =
      some (.up c') ∧ Deployed P c₀ image version c' := by
  have hbase : Base c₀ := by
    rcases Sane.attempt (device_sane hreach) with hbase | ⟨-, -, -, -, hlive⟩
    · exact hbase
    · exact absurd hidle hlive
  obtain ⟨-, hsession⟩ := session_run hbase hstart hcreate hurl hversion hroom hoffer hrun
  exact boots_installed (hsession.installed hrestart) hversion hbuild hhub hdevice htoken

/-! ## A rollout -/

/-- The images of the two versions. -/
def rolloutPlatform : Platform :=
  { offerPlatform with
    build := fun image =>
      ⟨ascii "azure-dps-example", if image = [7, 8, 9] then ascii "1.1" else ascii "1.0"⟩ }

/-- The client that a registered device starts. -/
def registeredClient : Client :=
  (firmware rolloutPlatform).fresh (Firmware.bootBuild rolloutPlatform ⟨registeredFlash, []⟩) .ota0
    ((firmware rolloutPlatform).appMain rolloutPlatform ⟨none, true⟩ ⟨registeredFlash, []⟩)

theorem update_deploys_sample :
    ∃ c c' : Client, ((firmware rolloutPlatform).device rolloutPlatform ShortPending).exec (.up c)
      [.reset, .done (.boot ⟨none, true⟩)] = some (.up c') ∧
    Deployed rolloutPlatform registeredClient [7, 8, 9] (ascii "1.1") c' := by
  have hfirst : ((firmware rolloutPlatform).device rolloutPlatform ShortPending).Reachable
      (.up registeredClient) :=
    .step (l := .done (.boot ⟨none, true⟩))
      (.init ⟨registeredFlash, shortPending_of_none rfl, rfl⟩) trivial rfl
  obtain ⟨c, hexec, hrestart⟩ := Machine.exists_of_any
    (p := fun c : Client => c.halt = some .restart)
    (o := ((client rolloutPlatform).guarded (Honest rolloutPlatform [7, 8, 9]
      (ascii "http://h/a.bin"))).exec (hubMqttEventHandler rolloutPlatform registeredClient
        sampleOutcomes (.data patchTopic offerText)) honestSession) (by decide +kernel)
  have hstart : startedBy rolloutPlatform registeredClient (.data patchTopic offerText) =
      some (ascii "http://h/a.bin", ascii "1.1") := by decide +kernel
  have hhub : loadNvsStr registeredClient.journal.disk.nvs .assignedHub 128 = some (ascii "x") := by
    decide +kernel
  have hdevice : loadNvsStr registeredClient.journal.disk.nvs .deviceId 128 = some (ascii "x") := by
    decide +kernel
  have hcreate : sampleOutcomes.taskCreate = true := rfl
  have hroom : ([7, 8, 9] : Bytes).length ≤ rolloutPlatform.partitionSize := by decide
  have htoken : (⟨none, true⟩ : StartOutcomes).sasToken = true := rfl
  obtain ⟨c', hboot, hdeployed⟩ := update_deploys hfirst rfl hhub hdevice hstart hcreate (by decide)
    (by decide) hroom rfl rfl (Machine.Run.of_guarded (Machine.Run.exec hexec)) hrestart htoken
  exact ⟨c, c', hboot, hdeployed⟩

end Winegrid.Azure
