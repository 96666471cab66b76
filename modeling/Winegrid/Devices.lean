import Winegrid.Azure.Deploys
import Winegrid.ThingsBoard.Device
import Winegrid.Esp.Images

/-!
# The two devices

The laws of the `pending_fw` protocol, for the two ESP-IDF clients.

* `installs_once`: the image of a version that never confirms itself is
  installed at most once, when it crashes before it erases `pending_fw`.
  `erased_marker_loops` is a run in which it crashes after that.
* `blames_rolled_back`: a version goes to `failed_fw` only after its rollback,
  when no reset cuts an attempt and the image was built with the version in
  its marker.  `cut_download_blamed` is a run in which a reset does.
* `starts_whole_images`: wherever power is lost, no image is started that is
  half written.
-/

namespace Winegrid

open Esp

/-! ## The laws -/

/-- A confirmed image of another version is the boot image. -/
def RunsOther (P : Platform) (v : Bytes) (flash : Flash) : Prop :=
  flash.imgState = .valid ∧ P.version (flash.app flash.bootSlot) ≠ v

/-- No attempt has left its marker. -/
def NoMarker (flash : Flash) : Prop := flash.pending = none

/-- In every run in which `v` is offered, its image never gets to the
mark-valid call, and crashes before it erases `pending_fw`, that image is made
the boot image at most once, no attempt starts after that, and a client that
runs after the rollback finds `v` in `failed_fw`. -/
theorem installs_once (P : Platform) {v : Bytes} (hv : v.length < 32) :
    (∀ s, ((ThingsBoard.firmware P).device P (RunsOther P v)).Reach
        (LoopConditions P (ThingsBoard.firmware P) v (ThingsBoard.OffersOnly P v)) s →
      InstallsOnce (ThingsBoard.firmware P) v s) ∧
    ∀ s, ((Azure.firmware P).device P (RunsOther P v)).Reach
        (LoopConditions P (Azure.firmware P) v (Azure.OffersOnly P v)) s →
      InstallsOnce (Azure.firmware P) v s :=
  ⟨fun _ => no_install_loop (ThingsBoard.follows P) (ThingsBoard.offers P hv) hv fun _ => id,
    fun _ => no_install_loop (Azure.follows P) (Azure.offers P hv) hv fun _ => id⟩

/-- In every run in which power is lost in a running client only with a
settled marker, and every image that is made the boot image was built with the
version in its marker, a version goes to `failed_fw` only after its image was
made the boot image and the other image booted. -/
theorem blames_rolled_back (P : Platform) :
    (∀ s, ((ThingsBoard.firmware P).device P NoMarker).Reach
        (SettledDevice (ThingsBoard.firmware P)) s →
      OwnMarker ((ThingsBoard.firmware P).log s).log →
      Blamed ((ThingsBoard.firmware P).log s).log) ∧
    ∀ s, ((Azure.firmware P).device P NoMarker).Reach (SettledDevice (Azure.firmware P)) s →
      OwnMarker ((Azure.firmware P).log s).log → Blamed ((Azure.firmware P).log s).log :=
  ⟨fun _ hreach => no_false_blame (ThingsBoard.follows P) (fun _ => id) hreach,
    fun _ hreach => no_false_blame (Azure.follows P) (fun _ => id) hreach⟩

/-- In every run, wherever power is lost in it, the bootloader starts only
images that are whole: that of the factory, or one that nothing was written to
since it was made the boot image.  The slot that it takes next holds one. -/
theorem starts_whole_images (P : Platform) (flash₀ : Flash) :
    (∀ s, ((ThingsBoard.firmware P).device P (Factory flash₀)).Reachable s →
      Lawful (BootsWhole P.version flash₀) ((ThingsBoard.firmware P).log s).log ∧
        Holds P.version flash₀ ((ThingsBoard.firmware P).log s)
          ((ThingsBoard.firmware P).log s).disk.bootSelect) ∧
    ∀ s, ((Azure.firmware P).device P (Factory flash₀)).Reachable s →
      Lawful (BootsWhole P.version flash₀) ((Azure.firmware P).log s).log ∧
        Holds P.version flash₀ ((Azure.firmware P).log s)
          ((Azure.firmware P).log s).disk.bootSelect :=
  ⟨fun _ => boots_whole (ThingsBoard.follows P), fun _ => boots_whole (Azure.follows P)⟩

/-! ## Two sample devices -/

namespace Azure

open Client

abbrev device11 (start : Flash → Prop) : Machine (Sys Client) (Esp.Label Label StartOutcomes) :=
  (firmware rolloutPlatform).device rolloutPlatform start

/-- Version 1.1 is offered and installed, its image crashes in its first call,
and 1.0 boots again. -/
def rollback11 : List (Esp.Label Label StartOutcomes) :=
  [.done (.boot ⟨none, true⟩), .done (.step offerEvent)] ++
    honestSession.map (fun l => .done (.step l)) ++
    [.reset, .cut (.boot ⟨none, true⟩) 2, .done (.boot ⟨none, true⟩)]

/-- The client of 1.0 after the rollback. -/
def isBack (c : Client) : Bool :=
  decide (.boot .ota1 (ascii "1.1") ∈ c.journal.log ∧
    .nvsSet .failedFw (ascii "1.1") ∈ c.journal.log ∧
    [.setBoot .ota1 (ascii "1.1") true, .boot .ota0 (ascii "1.0")].Sublist c.journal.log) &&
  c.journal.log.all fun e => !otherVersion (ascii "1.1") e

def endsBack : Sys Client → Bool
  | .up c => isBack c
  | .off _ | .offline _ => false

theorem isBack_iff {c : Client} : isBack c = true ↔
    (.boot .ota1 (ascii "1.1") ∈ c.journal.log ∧
      .nvsSet .failedFw (ascii "1.1") ∈ c.journal.log ∧
      [.setBoot .ota1 (ascii "1.1") true, .boot .ota0 (ascii "1.0")].Sublist c.journal.log) ∧
    ∀ e ∈ c.journal.log, otherVersion (ascii "1.1") e = false := by
  simp only [isBack, Bool.and_eq_true, decide_eq_true_eq, List.all_eq_true, Bool.not_eq_true']

/-- The rollback is a run, and one whose steps meet a condition that was
tested. -/
theorem rolledBack11_reach (start : Flash → Prop)
    (ok : Sys Client → Esp.Label Label StartOutcomes → Prop) [∀ s l, Decidable (ok s l)]
    (hstart : start registeredFlash)
    (h : (((device11 start).guarded ok).exec (.off ⟨registeredFlash, []⟩) rollback11).any
      endsBack = true) :
    ∃ c, (device11 start).Reach ok (.up c) ∧ isBack c = true := by
  obtain ⟨s, hexec, hback⟩ := (Option.any_eq_true _ _).mp h
  have hreach : (device11 start).Reach ok s :=
    .of_guarded (Machine.Reachable.exec (.init ⟨registeredFlash, hstart, rfl⟩) hexec)
  cases s with
  | up c => exact ⟨c, hreach, hback⟩
  | off j => cases hback
  | offline j => cases hback

end Azure

namespace ThingsBoard

open Client

/-- A platform that knows version 1.8. -/
def platform18 : Platform := samplePlatform [package18]

abbrev device18 (start : Flash → Prop) : Machine (Sys Client) (Esp.Label Label (Option Bytes)) :=
  (firmware platform18).device platform18 start

/-- A device that runs 1.7, with a token in NVS. -/
def flash17 : Flash :=
  ⟨Function.update (fun _ => none) .accessToken (some (ascii "token")), fun _ => [], .ota0, .valid⟩

/-- The client that a boot starts. -/
def booted (j : Log) : Client :=
  Client.fresh (Firmware.bootBuild platform18 j) j.disk.bootSelect
    ((firmware platform18).appMain platform18 none j)

/-- The client after it was offered 1.8. -/
def offered18 (j : Log) : Client :=
  mqttEventHandler platform18 (booted j) allOk (.data attributesTopic package18.text)

/-- The client after it installed 1.8. -/
def installed18 (j : Log) : Client := mqttEventHandler platform18 (offered18 j) allOk chunk18

def bootWork : Work Label (Option Bytes) := .boot none

def offerWork : Work Label (Option Bytes) :=
  .step (.event allOk (.data attributesTopic package18.text))

def chunkWork : Work Label (Option Bytes) := .step (.event allOk chunk18)

/-- A boot starts a client, when a token is in NVS. -/
theorem booted_next {start : Flash → Prop} {j : Log}
    (htoken : (startup none (Firmware.confirm platform18 j).disk.nvs).2 = true) :
    (device18 start).next (.off j) (.done bootWork) = some (.up (booted j)) := by
  have hboot : (firmware platform18).boot platform18 none j = .up (booted j) := if_pos htoken
  rw [← hboot]
  rfl

theorem event_next {start : Flash → Prop} {c : Client} (h : c.halt = none) (o : Outcomes)
    (e : Event) :
    (device18 start).next (.up c) (.done (.step (.event o e))) =
      some (.up (mqttEventHandler platform18 c o e)) :=
  congrArg (Option.map Sys.up) (next_event h o e)

/-- A boot, an offer and a chunk lead to the installed image. -/
theorem installed18_reach {start : Flash → Prop}
    {ok : Sys Client → Esp.Label Label (Option Bytes) → Prop} {j : Log}
    (h : (device18 start).Reach ok (.off j))
    (htoken : (startup none (Firmware.confirm platform18 j).disk.nvs).2 = true)
    (hhalt : (offered18 j).halt = none) (hboot : ok (.off j) (.done bootWork))
    (hoffer : ok (.up (booted j)) (.done offerWork))
    (hchunk : ok (.up (offered18 j)) (.done chunkWork)) :
    (device18 start).Reach ok (.up (installed18 j)) :=
  ((h.step hboot (booted_next htoken)).step hoffer (event_next rfl allOk _)).step hchunk
    (event_next hhalt allOk chunk18)

/-- The journal of a boot that is cut after `n` effects. -/
def cutBoot (j : Log) (n : Nat) : Log :=
  (j.upTo ((firmware platform18).appMain platform18 none j) n).write .reset

theorem cutBoot_next {start : Flash → Prop} (j : Log) (n : Nat) :
    (device18 start).next (.off j) (.cut bootWork n) = some (.off (cutBoot j n)) := by
  rw [cutBoot, ← (follows platform18).log_boot none j]
  rfl

theorem log_up (P : Platform) (c : Client) : (firmware P).log (.up c) = c.journal := rfl

theorem reset_next {start : Flash → Prop} (c : Client) :
    (device18 start).next (.up c) .reset = some (.off (c.journal.write .reset)) := rfl

/-- Before the first boot. -/
def journal17 : Log := ⟨flash17, []⟩

/-- After 1.8 was installed, and the restart. -/
def journal18 : Log := (installed18 journal17).journal.write .reset

/-- The client of 1.7 after the image of 1.8 crashed in its first call. -/
def rolledBack18 : Client := booted (cutBoot journal18 2)

theorem token17 : (startup none (Firmware.confirm platform18 journal17).disk.nvs).2 = true := by
  decide +kernel

theorem offered17_halt : (offered18 journal17).halt = none := by decide +kernel

theorem offered17_shaCtx : (offered18 journal17).dl.shaCtx = [] := by decide +kernel

/-- The broker offers only 1.8. -/
theorem offersOnly_offer (c : Client) :
    OffersOnly platform18 (ascii "1.8") c
      (.event allOk (.data attributesTopic package18.text)) := by
  have hmembers : ∀ m ∈ package18.members, m.1 = ascii "fw_version" →
      m.2.string? = some (ascii "1.8") := by decide
  refine ⟨fun _ _ root hroot x hmem => ?_, fun htopic => absurd htopic (by decide)⟩
  have hparse : platform18.parse package18.text = some (.object package18.members) :=
    samplePlatform_parse (by simp)
  rw [hparse, Option.some_inj] at hroot
  rw [← hroot, container_members, CJson.children, List.mem_map] at hmem
  obtain ⟨⟨k, y⟩, hmem, heq⟩ := hmem
  cases heq
  exact Option.some_inj.mp (hmembers _ hmem rfl)

theorem offersOnly_chunk {c : Client} (h : c.dl.shaCtx = []) :
    OffersOnly platform18 (ascii "1.8") c (.event allOk chunk18) := by
  refine ⟨fun htopic => absurd htopic (by decide), fun _ _ => ?_⟩
  rw [h]
  decide

/-- The run to the first installation. -/
theorem journal18_reach {start : Flash → Prop} (hstart : start flash17)
    {ok : Sys Client → Esp.Label Label (Option Bytes) → Prop}
    (hboot : ok (.off journal17) (.done bootWork))
    (hoffer : ok (.up (booted journal17)) (.done offerWork))
    (hchunk : ok (.up (offered18 journal17)) (.done chunkWork))
    (hreset : ok (.up (installed18 journal17)) .reset) :
    (device18 start).Reach ok (.off journal18) :=
  (installed18_reach (.init ⟨flash17, hstart, rfl⟩) token17 offered17_halt hboot hoffer
    hchunk).step hreset (reset_next _)

/-- The run to the rollback. -/
theorem rolledBack18_reach {start : Flash → Prop}
    {ok : Sys Client → Esp.Label Label (Option Bytes) → Prop}
    (h : (device18 start).Reach ok (.off journal18)) (hcut : ok (.off journal18) (.cut bootWork 2))
    (hboot : ok (.off (cutBoot journal18 2)) (.done bootWork)) :
    (device18 start).Reach ok (.up rolledBack18) :=
  (h.step hcut (cutBoot_next journal18 2)).step hboot (booted_next (by decide +kernel))

theorem runsOther_flash17 : RunsOther platform18 (ascii "1.8") flash17 :=
  ⟨rfl, by decide⟩

theorem boots17 : (Firmware.bootBuild platform18 journal17).version ≠ ascii "1.8" := by decide

/-- Versions 1.8 and 1.1 crash in their first call, and are refused after the
rollback. -/
theorem installs_once_sample :
    (¬ NotRolledBack (ascii "1.8") rolledBack18.journal.log ∧
      InstallsOnce (firmware platform18) (ascii "1.8") (.up rolledBack18)) ∧
    ∃ c, ¬ NotRolledBack (ascii "1.1") c.journal.log ∧
      InstallsOnce (Azure.firmware Azure.rolloutPlatform) (ascii "1.1") (.up c) := by
  have hlaws := installs_once platform18 (v := ascii "1.8") (by decide)
  have hazure := installs_once Azure.rolloutPlatform (v := ascii "1.1") (by decide)
  have hinstalled : (device18 (RunsOther platform18 (ascii "1.8"))).Reach
      (LoopConditions platform18 (firmware platform18) (ascii "1.8")
        (OffersOnly platform18 (ascii "1.8"))) (.off journal18) :=
    journal18_reach runsOther_flash17 ⟨boots17, trivial⟩ ⟨offersOnly_offer _, trivial⟩
      ⟨offersOnly_chunk offered17_shaCtx, trivial⟩ ⟨trivial, trivial⟩
  have hcut : ∀ e ∈
      (journal18.since ((firmware platform18).appMain platform18 none journal18)).take 2,
      e ≠ .nvsErase .pendingFw ∧ e ≠ .markValid := by decide +kernel
  have hrun := rolledBack18_reach hinstalled
    ⟨fun _ hmem => (hcut _ hmem).2 rfl, fun _ hmem => (hcut _ hmem).1 rfl⟩
    ⟨(by decide +kernel :
      (Firmware.bootBuild platform18 (cutBoot journal18 2)).version ≠ ascii "1.8"), trivial⟩
  obtain ⟨c, hreach, hback⟩ := Azure.rolledBack11_reach
    (RunsOther Azure.rolloutPlatform (ascii "1.1"))
    (LoopConditions Azure.rolloutPlatform (Azure.firmware Azure.rolloutPlatform)
      (ascii "1.1") (Azure.OffersOnly Azure.rolloutPlatform (ascii "1.1")))
    ⟨rfl, by decide⟩ (by decide +kernel)
  obtain ⟨⟨-, -, hrolled11⟩, -⟩ := Azure.isBack_iff.mp hback
  refine ⟨⟨fun hnot => ?_, hlaws.1 _ hrun⟩, c, fun hnot => ?_, hazure.2 _ hreach⟩
  · have hrolled := hnot .ota1 .ota0 (ascii "1.7") (by decide +kernel)
    exact absurd hrolled (by decide)
  · exact absurd (hnot .ota1 .ota0 (ascii "1.0") hrolled11) (by decide)

/-- Version 1.8 crashes after it erased its marker, and is installed again. -/
theorem erased_marker_loops :
    ¬ ∀ (P : Platform) (v : Bytes), v.length < 32 →
      ∀ s, ((firmware P).device P (RunsOther P v)).Reach
          (BadImage P (firmware P) v (OffersOnly P v)) s →
        InstallsOnce (firmware P) v s := by
  intro h
  have hinstalled : (device18 (RunsOther platform18 (ascii "1.8"))).Reach
      (BadImage platform18 (firmware platform18) (ascii "1.8")
        (OffersOnly platform18 (ascii "1.8"))) (.off journal18) :=
    journal18_reach runsOther_flash17 boots17 (offersOnly_offer _)
      (offersOnly_chunk offered17_shaCtx) trivial
  have hunconfirmed : .markValid ∉
      (journal18.since ((firmware platform18).appMain platform18 none journal18)).take 3 := by
    decide +kernel
  have hcut : BadImage platform18 (firmware platform18) (ascii "1.8")
      (OffersOnly platform18 (ascii "1.8")) (.off journal18) (.cut bootWork 3) :=
    fun _ => hunconfirmed
  have hback : (Firmware.bootBuild platform18 (cutBoot journal18 3)).version ≠ ascii "1.8" := by
    decide +kernel
  have hcrash := hinstalled.step hcut (cutBoot_next journal18 3)
  have hagain := installed18_reach hcrash (by decide +kernel) (by decide +kernel) hback
    (offersOnly_offer _) (offersOnly_chunk (by decide +kernel))
  have htwice : installs (ascii "1.8") (installed18 (cutBoot journal18 3)).journal.log = 2 := by
    decide +kernel
  have honce := (h platform18 (ascii "1.8") (by decide) _ hagain).1
  rw [log_up, htwice] at honce
  omega

theorem noMarker_flash17 : NoMarker flash17 := by
  unfold NoMarker
  decide

theorem settledDevice_reset {P : Platform} {c : Client} (h : c.journal.disk.imgState = .new) :
    SettledDevice (firmware P) (.up c) .reset :=
  Or.inr h

/-- Versions 1.8 and 1.1 are in `failed_fw` after their rollback. -/
theorem blames_rolled_back_sample :
    (.nvsSet .failedFw (ascii "1.8") ∈ rolledBack18.journal.log ∧
      Blamed rolledBack18.journal.log) ∧
    ∃ c : Azure.Client, .nvsSet .failedFw (ascii "1.1") ∈ c.journal.log ∧
      Blamed c.journal.log := by
  have hlaws := blames_rolled_back platform18
  have hnew : (installed18 journal17).journal.disk.imgState = .new := by decide +kernel
  have hmarked : .nvsSet .failedFw (ascii "1.8") ∈ rolledBack18.journal.log := by decide +kernel
  have hinstalled : (device18 NoMarker).Reach (SettledDevice (firmware platform18))
      (.off journal18) :=
    journal18_reach noMarker_flash17 trivial trivial trivial (settledDevice_reset hnew)
  have honly : ∀ e ∈ rolledBack18.journal.log, otherVersion (ascii "1.8") e = false := by
    decide +kernel
  have hown : OwnMarker ((firmware platform18).log (.up rolledBack18)).log := by
    rw [log_up]
    exact ownMarker_of_only honly
  have hblamed := hlaws.1 _ (rolledBack18_reach hinstalled trivial trivial) hown
  rw [log_up] at hblamed
  obtain ⟨c, hreach, hback⟩ := Azure.rolledBack11_reach NoMarker
    (SettledDevice (Azure.firmware Azure.rolloutPlatform)) rfl (by decide +kernel)
  obtain ⟨⟨-, hmarked11, -⟩, honly11⟩ := Azure.isBack_iff.mp hback
  exact ⟨⟨hmarked, hblamed⟩, c, hmarked11,
    (blames_rolled_back Azure.rolloutPlatform).2 _ hreach (ownMarker_of_only honly11)⟩

/-- Versions 1.8 and 1.1 were started whole, and so are 1.7 and 1.0 after the
rollback. -/
theorem starts_whole_images_sample :
    (.boot .ota1 (ascii "1.8") ∈ rolledBack18.journal.log ∧
      Lawful (BootsWhole platform18.version flash17) rolledBack18.journal.log) ∧
    ∃ c : Azure.Client, .boot .ota1 (ascii "1.1") ∈ c.journal.log ∧
      Lawful (BootsWhole Azure.rolloutPlatform.version Azure.registeredFlash) c.journal.log := by
  have hlaws := starts_whole_images platform18 flash17
  have hbooted : .boot .ota1 (ascii "1.8") ∈ rolledBack18.journal.log := by decide +kernel
  have hstart : Factory flash17 flash17 := rfl
  have hinstalled : (device18 (Factory flash17)).Reachable (.off journal18) :=
    journal18_reach hstart trivial trivial trivial trivial
  have hlawful := (hlaws.1 _ (rolledBack18_reach hinstalled trivial trivial)).1
  rw [log_up] at hlawful
  obtain ⟨c, hreach, hback⟩ := Azure.rolledBack11_reach (Factory Azure.registeredFlash)
    (fun _ _ => True) rfl (by decide +kernel)
  obtain ⟨⟨hbooted11, -, -⟩, -⟩ := Azure.isBack_iff.mp hback
  exact ⟨⟨hbooted, hlawful⟩, c, hbooted11,
    ((starts_whole_images Azure.rolloutPlatform Azure.registeredFlash).2 _
      hreach).1⟩

/-- What is blamed was installed. -/
theorem blamed_installed {log : List Effect} {v : Bytes} (h : Blamed log)
    (hmem : .nvsSet .failedFw v ∈ log) : ∃ slot w, .setBoot slot w true ∈ log := by
  obtain ⟨before, after, rfl⟩ := List.append_of_mem hmem
  obtain ⟨before', staged, slot, w, after', rfl, ⟨before'', w', after'', rfl, -⟩, -⟩ :=
    h before v after rfl
  exact ⟨staged, w', by simp⟩

/-- The client of 1.7 after a reset cut the download of 1.8. -/
def cutAttempt : Client := booted ((offered18 journal17).journal.write .reset)

def setBootVersion : Effect → Option Bytes
  | .setBoot _ w _ => some w
  | _ => none

/-- The download of 1.8 is cut by a reset, and 1.8 goes to `failed_fw`. -/
theorem cut_download_blamed :
    ¬ ∀ (P : Platform) s, ((firmware P).device P NoMarker).Reachable s →
      Blamed ((firmware P).log s).log := by
  intro h
  have hstart : (device18 NoMarker).Reachable (.off journal17) :=
    .init ⟨flash17, noMarker_flash17, rfl⟩
  have hoffered := (hstart.step trivial (booted_next token17)).step trivial
    (event_next rfl allOk (.data attributesTopic package18.text))
  have hagain := (hoffered.step trivial (reset_next _)).step trivial
    (booted_next (by decide +kernel))
  have hblamed := h platform18 _ hagain
  rw [log_up] at hblamed
  have hmarked : .nvsSet .failedFw (ascii "1.8") ∈ cutAttempt.journal.log := by decide +kernel
  obtain ⟨slot, w, hmem⟩ := blamed_installed hblamed hmarked
  have hnone : cutAttempt.journal.log.filterMap setBootVersion = [] := by decide +kernel
  have hsome : w ∈ cutAttempt.journal.log.filterMap setBootVersion :=
    List.mem_filterMap.mpr ⟨_, hmem, rfl⟩
  rw [hnone] at hsome
  cases hsome

end ThingsBoard

end Winegrid
