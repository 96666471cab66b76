import Winegrid.ThingsBoard.Attempts
import Winegrid.ThingsBoard.Token
import Winegrid.ThingsBoard.Transfer

/-!
# From an announcement to a confirmed release

A device whose client runs gets the announcement of a release, the server
answers its requests, and the device restarts.  The next boot that is not cut
starts the image, confirms it and clears the marker, and the client that comes
up has the same token and leaves the flash alone as long as no other version is
announced.

* `nvs_of_busy`: a download leaves NVS as its start left it.
* `download_run` is the download, with its marker.
* `Deployed` is the new client, and `boots_release` its boot.
* `recovers`: a boot that is not cut brings any provisioned device up again.
* `settled_run`: what it does from there on.
* `release_deploys` is the whole way.
-/

namespace Winegrid.ThingsBoard

open Esp Client

variable {P : Platform} {r : Release} {c c' start : Client} {o : Outcomes} {l : Label}
  {id : Int32} {m : Nat} {s s' : Net} {v token : Bytes}

/-! ## NVS during a download -/

theorem finishFwUpdate_nvs (P : Platform) (c : Client) (o : Outcomes) (success : Bool) :
    (c.finishFwUpdate P o success).journal.disk.nvs = c.journal.disk.nvs := by
  have hgave : ∀ states es, (∀ e ∈ es, Harmless e) →
      (c.gaveUp (failEffects states es)).journal.disk.nvs = c.journal.disk.nvs :=
    fun states es hes =>
      (writes_untouched c.journal _ (harmless_failEffects states hes)).nvs
  rcases finishFwUpdate_cases P c o success with ⟨states, -, heq⟩ | ⟨-, -, slot, -, heq | heq⟩
  · rw [heq]
    exact hgave states [] (by simp)
  · rw [heq]
    exact hgave _ _ (by simp [Harmless])
  · rw [heq]
    rfl

/-- A step of a client that downloads. -/
theorem nvs_of_busy (hbusy : c.dl.inProgress = true) (hnext : c.next P l = some c') :
    c'.journal.disk.nvs = c.journal.disk.nvs := by
  obtain ⟨-, hstep⟩ := next_step hnext
  cases hstep with
  | quiet es htalk hbuild hslot hfw hdl hota hjournal => rw [hjournal, writes_talk htalk]
  | attributes htopic hparse => rw [applyAttributes_journal]
  | offer htopic hparse hhalt hwants =>
    have hidle := idle_of_wantsUpdate hwants
    rw [applyAttributes_dl, hbusy] at hidle
    cases hidle
  | chunk htopic =>
    rcases handleFwChunkData_cases P c _ _ with
      ⟨hidle, -⟩ | ⟨-, heq⟩ | ⟨-, -, -, -, heq⟩ | ⟨-, -, heq⟩
    · exact absurd (hidle.symm.trans hbusy) (by decide)
    · rw [heq, finishFwUpdate_nvs]
    · rw [heq]
      rfl
    · rw [heq, finishFwUpdate_nvs]
      rfl

/-- The client moves in a download only. -/
theorem Transfer.busy (h : Transfer P r start id m s) (hnext : s.client.next P l = some c') :
    s.client.dl.inProgress = true := by
  cases h with
  | asked _ h => exact h.inProgress
  | answered _ h => exact h.inProgress
  | done h =>
    have hhalt := (next_step hnext).1
    exact absurd (h.halt.symm.trans hhalt) (by decide)

/-- A message moves the client by one of its steps, or not at all. -/
theorem client_of_net {w : Wire} (h : s.next P w = some s') :
    s'.client = s.client ∨ ∃ l, s.client.next P l = some s'.client := by
  have hadvance : ∀ (s₀ : Net) l, s₀.client = s.client → s₀.advance P l = some s' →
      ∃ l, s.client.next P l = some s'.client := by
    intro s₀ l hclient h
    obtain ⟨c', hnext, heq⟩ := Option.map_eq_some_iff.mp h
    refine ⟨l, ?_⟩
    rw [← hclient, hnext, ← heq]
  cases w with
  | client l =>
    simp only [Net.next] at h
    split_ifs at h
    exact Or.inr (hadvance s l rfl h)
  | connect o =>
    simp only [Net.next] at h
    split_ifs at h
    exact Or.inr (hadvance s _ rfl h)
  | disconnect o =>
    simp only [Net.next] at h
    split_ifs at h
    exact Or.inr (hadvance { s with responses := [] } _ rfl h)
  | serve n payload =>
    obtain ⟨request, -, heq⟩ := Option.map_eq_some_iff.mp h
    subst heq
    exact Or.inl rfl
  | deliver n o =>
    simp only [Net.next] at h
    split_ifs at h
    obtain ⟨answer, -, h⟩ := Option.bind_eq_some_iff.mp h
    exact Or.inr (hadvance { s with responses := s.responses.eraseIdx n } _ rfl h)

/-- The announcement stores the marker, and the messages of the download leave
it there. -/
theorem download_run {topic payload : Bytes} {root : CJson} {s₁ : Net} {ls : List Wire}
    (hreach : (client P).Reachable start) (hidle : start.dl.inProgress = false)
    (hgenuine : r.Genuine P) (hannounces : Announces P r payload root)
    (hnew : r.version ≠ start.build.version)
    (hfailed : start.journal.disk.nvs .failedFw ≠ some r.version) (ho : o.Succeed)
    (hrpc : startsWith topic rpcRequestTopicPrefix = false)
    (hoffer : (⟨start, [], []⟩ : Net).next P (.client (.event o (.data topic payload))) = some s₁)
    (hrun : (net P).Run (Honest r.image) s₁ ls s) :
    Transfer P r start (start.dl.requestId + 1) (ls.countP Wire.isMessage) s ∧
      s.client.journal.disk.nvs =
        Function.update start.journal.disk.nvs .pendingFw (some r.version) := by
  refine hrun.invariant (I := fun ls s =>
    Transfer P r start (start.dl.requestId + 1) (ls.countP Wire.isMessage) s ∧
      s.client.journal.disk.nvs =
        Function.update start.journal.disk.nvs .pendingFw (some r.version))
    (transfer_offer hreach hidle hgenuine hannounces hnew hfailed ho hrpc hoffer) ?_
  intro ls s w s' hboth hok hnext
  obtain ⟨htransfer, hsame⟩ := hboth
  refine ⟨?_, ?_⟩
  · rw [List.countP_append, List.countP_singleton]
    exact transfer_next hgenuine htransfer hok hnext
  · rcases client_of_net hnext with hclient | ⟨l, hclient⟩
    · rw [hclient, hsame]
    · rw [nvs_of_busy (htransfer.busy hclient) hclient, hsame]

/-! ## The boot -/

/-- The client of the new image, which is confirmed. -/
structure Deployed (P : Platform) (r : Release) (token : Bytes) (start c : Client) : Prop where
  build : c.build = P.build r.image
  slot : c.slot = start.slot.other
  content : c.journal.disk.app c.slot = r.image
  bootSlot : c.journal.disk.bootSlot = c.slot
  imgState : c.journal.disk.imgState = .valid
  nvs : c.journal.disk.nvs = Function.update start.journal.disk.nvs .pendingFw none
  token : c.journal.disk.nvs .accessToken = some token
  sound : Sound P c
  idle : c.dl.inProgress = false
  fw : c.fw.version = []

/-- A boot with a stored token starts a client. -/
theorem boots_up {j : Log} (hload : loadNvsStr j.disk.nvs .accessToken 64 = some token)
    (provisioned : Option Bytes) :
    ∃ j', (firmware P).boot P provisioned j =
        .up ((firmware P).fresh (Firmware.bootBuild P j) j.disk.bootSelect j') ∧
      j'.disk = (Firmware.confirm P j).disk := by
  have hstored : loadNvsStr (Firmware.confirm P j).disk.nvs .accessToken 64 = some token := by
    rw [loadNvsStr, (confirms_boot P j).nvs _ (by decide) (by decide)]
    exact hload
  have hstartup : startup provisioned (Firmware.confirm P j).disk.nvs = ([], true) := by
    simp only [startup, hstored]
  have hmain : (firmware P).appMain P provisioned j =
      (Firmware.confirm P j).write (.call .clientStart) := by
    simp only [Firmware.appMain, firmware, hstartup]
    rfl
  refine ⟨(Firmware.confirm P j).write (.call .clientStart), ?_, rfl⟩
  rw [← hmain, Firmware.boot, if_pos]
  simp only [firmware, hstartup]

/-- The first boot of a release that was installed. -/
theorem boots_release (deviceStart : Flash → Prop) (provisioned : Option Bytes)
    (h : Completes r start c) (hgenuine : r.Genuine P)
    (hbuild : (P.build r.image).version = r.version)
    (hnvs : c.journal.disk.nvs =
      Function.update start.journal.disk.nvs .pendingFw (some r.version))
    (htoken : loadNvsStr start.journal.disk.nvs .accessToken 64 = some token) :
    ∃ c', ((firmware P).device P deviceStart).exec (.up c) [.reset, .done (.boot provisioned)] =
      some (.up c') ∧ Deployed P r token start c' := by
  let j := c.journal.write .reset
  have hselect : j.disk.bootSelect = start.slot.other := by
    rw [Flash.bootSelect, show j.disk.imgState = .new from h.imgState, if_neg (by decide)]
    exact h.bootSlot
  have hrunning : P.version (j.disk.app j.disk.bootSlot) = r.version := by
    rw [show j.disk.bootSlot = start.slot.other from h.bootSlot,
      show j.disk.app start.slot.other = r.image from h.image]
    exact hbuild
  have hpending : j.disk.pending = some (P.version (j.disk.app j.disk.bootSlot)) := by
    rw [hrunning]
    refine loadNvsStr_eq_some.mpr ⟨?_, hgenuine.version_lt⟩
    rw [show j.disk.nvs = _ from hnvs, Function.update_self]
  have hconfirm := confirm_new (P := P) (j := j) h.imgState hpending
  have hcleared : (Firmware.confirm P j).disk.nvs =
      Function.update start.journal.disk.nvs .pendingFw none := by
    rw [hconfirm]
    show Function.update j.disk.nvs .pendingFw none = _
    rw [show j.disk.nvs = _ from hnvs, Function.update_idem]
  have hload : loadNvsStr j.disk.nvs .accessToken 64 = some token := by
    rw [show j.disk.nvs = _ from hnvs, loadNvsStr, Function.update_of_ne (by decide)]
    exact htoken
  have hbooted : Firmware.bootBuild P j = P.build r.image := by
    rw [Firmware.bootBuild, hselect]
    exact congrArg P.build h.image
  obtain ⟨j', hboot, hdisk⟩ := boots_up (P := P) hload provisioned
  refine ⟨(firmware P).fresh (Firmware.bootBuild P j) j.disk.bootSelect j', ?_, ?_⟩
  · rw [← hboot]
    rfl
  · refine ⟨hbooted, hselect, ?_, ?_, ?_, ?_, ?_, sound_fresh P _ _ _, rfl, rfl⟩
    · show j'.disk.app j.disk.bootSelect = r.image
      rw [hdisk, hconfirm, hselect]
      exact h.image
    · show j'.disk.bootSlot = j.disk.bootSelect
      rw [hdisk, hconfirm, hselect]
      exact h.bootSlot
    · show j'.disk.imgState = .valid
      rw [hdisk, hconfirm]
    · show j'.disk.nvs = _
      rw [hdisk, hcleared]
    · show j'.disk.nvs .accessToken = some token
      rw [hdisk, hcleared, Function.update_of_ne (by decide)]
      exact (loadNvsStr_eq_some.mp htoken).1

/-! ## After any loss of power -/

/-- The client of the image that the bootloader takes in `flash`, confirmed and
without a download. -/
structure Recovered (P : Platform) (flash : Flash) (token : Bytes) (c : Client) : Prop where
  slot : c.slot = flash.bootSelect
  build : c.build = P.build (c.journal.disk.app c.slot)
  app : c.journal.disk.app = flash.app
  bootSlot : c.journal.disk.bootSlot = c.slot
  imgState : c.journal.disk.imgState = .valid
  token : c.journal.disk.nvs .accessToken = some token
  idle : c.dl.inProgress = false

/-- A device has the token that it got once, and the slot that its bootloader
takes holds a whole image, wherever power was lost before.  So one boot that is
not cut brings its client up again, with that token and on that image, and
confirms it. -/
theorem recovers {flash₀ : Flash} {s : Sys Client} (hblank : NoToken flash₀)
    (h : ((firmware P).device P (Factory flash₀)).Reachable s)
    (htoken : ((firmware P).log s).disk.nvs .accessToken = some token)
    (provisioned : Option Bytes) :
    Holds P.version flash₀ ((firmware P).log s) ((firmware P).log s).disk.bootSelect ∧
      ∃ c, ((firmware P).device P (Factory flash₀)).exec s [.reset, .done (.boot provisioned)] =
          some (.up c) ∧ Recovered P ((firmware P).log s).disk token c := by
  have hreach : ((firmware P).device P NoToken).Reachable s := by
    refine h.invariant (I := ((firmware P).device P NoToken).Reachable) ?_ ?_
    · intro s ⟨flash, hflash, hs⟩
      have hsame : flash = flash₀ := hflash
      exact .init ⟨flash, hsame ▸ hblank, hs⟩
    · intro s l t _ hs _ hnext
      exact .step hs trivial hnext
  have hkept := (kept_reach hreach).1
  have hload : loadNvsStr ((firmware P).log s).disk.nvs .accessToken 64 = some token := by
    refine loadNvsStr_eq_some.mpr ⟨htoken, hkept.short token ?_⟩
    rw [hkept.stored] at htoken
    exact List.mem_of_mem_head? htoken
  let j := ((firmware P).log s).write .reset
  obtain ⟨j', hboot, hdisk⟩ := boots_up (P := P) (j := j) hload provisioned
  obtain ⟨happ, hslot, hstate, hnvs⟩ := confirms_boot P j
  refine ⟨(boots_whole (follows P) h).2,
    (firmware P).fresh (Firmware.bootBuild P j) j.disk.bootSelect j', ?_, rfl, ?_, ?_, ?_, ?_, ?_,
    rfl⟩
  · rw [← hboot]
    rfl
  · show P.build (j.disk.app j.disk.bootSelect) = P.build (j'.disk.app j.disk.bootSelect)
    rw [hdisk, happ]
  · show j'.disk.app = j.disk.app
    rw [hdisk, happ]
  · show j'.disk.bootSlot = j.disk.bootSelect
    rw [hdisk, hslot]
  · show j'.disk.imgState = .valid
    rw [hdisk, hstate]
  · show j'.disk.nvs .accessToken = some token
    rw [hdisk, hnvs _ (by decide) (by decide)]
    exact htoken

/-- Power is lost right after version 1.8 was made the boot image. -/
def cutInstall : List (Esp.Label Label (Option Bytes)) :=
  [ .done (.boot (some (ascii "token"))), .done (.step (.event allOk .connected))
  , .done (.step (.event allOk (.data attributesTopic package18.text)))
  , .cut (.step (.event allOk chunk18)) 5 ]

theorem recovers_sample : ∃ (s : Sys Client) (c : Client),
    ((firmware (samplePlatform [package18])).log s).disk.imgState = .new ∧
    ((firmware (samplePlatform [package18])).device (samplePlatform [package18])
      (Factory blankFlash)).exec s [.reset, .done (.boot none)] = some (.up c) ∧
    Recovered (samplePlatform [package18]) ((firmware (samplePlatform [package18])).log s).disk
      (ascii "token") c := by
  obtain ⟨s, hexec, hnew, htoken⟩ := Machine.exists_of_any
    (p := fun s => ((firmware (samplePlatform [package18])).log s).disk.imgState = .new ∧
      ((firmware (samplePlatform [package18])).log s).disk.nvs .accessToken = some (ascii "token"))
    (o := ((firmware (samplePlatform [package18])).device (samplePlatform [package18])
      (Factory blankFlash)).exec (.off ⟨blankFlash, []⟩) cutInstall) (by decide +kernel)
  have hreach : ((firmware (samplePlatform [package18])).device (samplePlatform [package18])
      (Factory blankFlash)).Reachable s :=
    Machine.Reachable.exec (.init ⟨blankFlash, rfl, rfl⟩) hexec
  have hblank : NoToken blankFlash := rfl
  obtain ⟨-, c, hboot, hrecovered⟩ := recovers hblank hreach htoken none
  exact ⟨s, c, hnew, hboot, hrecovered⟩

/-! ## From there on -/

/-- The broker announces no other version than `v`.  What it sends as firmware
is free. -/
def AnnouncesOnly (P : Platform) (v : Bytes) : Label → Prop
  | .event _ (.data topic payload) =>
    startsWith topic fwTopicPrefix = false → startsWith topic rpcRequestTopicPrefix = false →
      ∀ root, P.parse payload = some root → ∀ x,
        (some (ascii "fw_version"), .string x) ∈ (container root).children → x = v
  | _ => True

/-- A client that runs the version `v` and was told of no other. -/
structure Settled (P : Platform) (v : Bytes) (c : Client) : Prop where
  only : OnlyVersion P v c
  build : c.build.version = v
  idle : c.halt = none → c.dl.inProgress = false

/-- A step of a settled client only talks. -/
theorem settled_next (hv : v.length < 32) (h : Settled P v c) (hok : AnnouncesOnly P v l)
    (hnext : c.next P l = some c') :
    Settled P v c' ∧ ∃ es, c'.journal = c.journal.writes es ∧ ∀ e ∈ es, Talks e := by
  have hsound := sound_next h.only.sound hnext
  obtain ⟨hhalt, hstep⟩ := next_step hnext
  have hidle := h.idle hhalt
  cases hstep with
  | quiet es htalk hbuild hslot hfw hdl hota hjournal =>
    exact ⟨⟨⟨hsound, hfw ▸ h.only.version⟩, hbuild ▸ h.build, fun _ => hdl ▸ hidle⟩, es, hjournal,
      htalk⟩
  | attributes htopic hparse hrpc =>
    have hversion := applyAttributes_version hv c (hok htopic hrpc _ hparse)
    refine ⟨⟨⟨hsound, ?_⟩, ?_, fun _ => ?_⟩, [], ?_, by simp⟩
    · rcases hversion with hsame | hown
      · rw [hsame]
        exact h.only.version
      · exact Or.inr hown
    · rw [applyAttributes_build, h.build]
    · rw [applyAttributes_dl, hidle]
    · rw [applyAttributes_journal, Journal.writes_nil]
  | offer htopic hparse hhalt' hwants hrpc =>
    -- The version that it was told of is none or its own.
    simp only [wantsUpdate, Bool.and_eq_true, decide_eq_true_eq, bne_iff_ne,
      applyAttributes_build, h.build] at hwants
    rcases applyAttributes_version hv c (hok htopic hrpc _ hparse) with hsame | hown
    · rcases h.only.version with hnil | hown
      · rw [hsame, hnil] at hwants
        exact absurd hwants.1.2 (by simp)
      · exact absurd (hsame.trans hown) hwants.2
    · exact absurd hown hwants.2
  | chunk htopic =>
    rcases handleFwChunkData_cases P c _ _ with
      ⟨-, heq⟩ | ⟨hbusy, -⟩ | ⟨hbusy, -⟩ | ⟨hbusy, -⟩
    · rw [heq]
      exact ⟨h, [], rfl, by simp⟩
    · exact absurd (hidle.symm.trans hbusy) (by decide)
    · exact absurd (hidle.symm.trans hbusy) (by decide)
    · exact absurd (hidle.symm.trans hbusy) (by decide)

/-- A settled client that is told of no other version only talks. -/
theorem settled_run {ls : List Label} (hv : v.length < 32) (h : Settled P v c)
    (hrun : (client P).Run (fun _ => AnnouncesOnly P v) c ls c') :
    ∃ es, c'.journal = c.journal.writes es ∧ ∀ e ∈ es, Talks e := by
  have hinv : Settled P v c' ∧ ∃ es, c'.journal = c.journal.writes es ∧ ∀ e ∈ es, Talks e := by
    refine hrun.invariant (I := fun _ c' => Settled P v c' ∧
      ∃ es, c'.journal = c.journal.writes es ∧ ∀ e ∈ es, Talks e) ⟨h, [], rfl, by simp⟩ ?_
    intro ls d l d' ⟨hsettled, es, hes, htalk⟩ hok hnext
    obtain ⟨hsettled', fs, hfs, htalk'⟩ := settled_next hv hsettled hok hnext
    refine ⟨hsettled', es ++ fs, ?_, fun e he => ?_⟩
    · rw [hfs, hes, Journal.writes_append]
    · rcases List.mem_append.mp he with he | he
      · exact htalk e he
      · exact htalk' e he
  exact hinv.2

/-! ## The whole way -/

/-- The client of a device is a client of one boot. -/
theorem client_reach {deviceStart : Flash → Prop} {s : Sys Client}
    (h : ((firmware P).device P deviceStart).Reachable s) :
    ∀ c, s = .up c → (client P).Reachable c := by
  refine h.invariant (I := fun s => ∀ c, s = .up c → (client P).Reachable c) ?_ ?_
  · intro s ⟨flash, _, hs⟩ c hc
    rw [hs] at hc
    cases hc
  · intro s l t _ hs _ hnext c hc
    subst hc
    cases l with
    | done a =>
      cases s with
      | off j =>
        cases a with
        | step l => cases hnext
        | boot provisioned =>
          have hboot : (firmware P).boot P provisioned j = .up c := Option.some_inj.mp hnext
          unfold Firmware.boot at hboot
          split_ifs at hboot
          exact .init ⟨_, _, _, (Sys.up.inj hboot).symm⟩
      | offline j => cases a <;> cases hnext
      | up d =>
        cases a with
        | boot provisioned => cases hnext
        | step l =>
          obtain ⟨c', hclient, hc'⟩ := Option.map_eq_some_iff.mp hnext
          cases hc'
          exact .step (hs d rfl) trivial hclient
    | cut a n =>
      obtain ⟨t, -, ht⟩ := Option.map_eq_some_iff.mp hnext
      cases ht
    | reset => cases hnext

/-- A provisioned device that downloads nothing gets the announcement of a
release that is new to it, and an honest server answers until the image is
complete.  NVS then holds the marker of the release and is else as it was, and
the next boot that is not cut starts the image and confirms it.  The device still
has its token, and as long as no other version is announced its client only
talks. -/
theorem release_deploys {topic payload : Bytes} {root : CJson} {s₁ : Net} {ls : List Wire}
    (provisioned : Option Bytes)
    (hreach : ((firmware P).device P NoToken).Reachable (.up start))
    (hidle : start.dl.inProgress = false) (hgenuine : r.Genuine P)
    (hannounces : Announces P r payload root) (hbuild : (P.build r.image).version = r.version)
    (hnew : r.version ≠ start.build.version)
    (hfailed : start.journal.disk.nvs .failedFw ≠ some r.version) (ho : o.Succeed)
    (hrpc : startsWith topic rpcRequestTopicPrefix = false)
    (hoffer : (⟨start, [], []⟩ : Net).next P (.client (.event o (.data topic payload))) = some s₁)
    (hrun : (net P).Run (Honest r.image) s₁ ls s)
    (hall : ls.countP Wire.isMessage = 2 * chunkCount r.image.length) :
    ∃ token c', start.journal.disk.nvs .accessToken = some token ∧
      s.client.journal.disk.nvs =
        Function.update start.journal.disk.nvs .pendingFw (some r.version) ∧
      ((firmware P).device P NoToken).exec (.up s.client) [.reset, .done (.boot provisioned)] =
        some (.up c') ∧
      Deployed P r token start c' ∧
      ∀ ls d, (client P).Run (fun _ => AnnouncesOnly P r.version) c' ls d →
        ∃ es, d.journal = c'.journal.writes es ∧ ∀ e ∈ es, Talks e := by
  have hclient := client_reach hreach start rfl
  obtain ⟨hkept, hhas⟩ := kept_reach hreach
  obtain ⟨token, htoken⟩ := hkept.load hhas
  have hdownload := download_run hclient hidle hgenuine hannounces hnew hfailed ho hrpc hoffer hrun
  have hcompletes := hdownload.1.completes hall
  obtain ⟨c', hexec, hdeployed⟩ := boots_release NoToken provisioned hcompletes hgenuine
    hbuild hdownload.2 htoken
  refine ⟨token, c', (loadNvsStr_eq_some.mp htoken).1, hdownload.2, hexec, hdeployed,
    fun ls d hrun' => ?_⟩
  refine settled_run hgenuine.version_lt ⟨⟨?_, Or.inl hdeployed.fw⟩, ?_, fun _ => hdeployed.idle⟩
    hrun'
  · exact hdeployed.sound
  · rw [hdeployed.build, hbuild]

/-! ## One release -/

/-- A blank device that was provisioned and is connected. -/
def provisionedClient : Client :=
  mqttEventHandler (samplePlatform [package18])
    ((firmware (samplePlatform [package18])).fresh
      (Firmware.bootBuild (samplePlatform [package18]) ⟨blankFlash, []⟩) .ota0
      ((firmware (samplePlatform [package18])).appMain (samplePlatform [package18])
        (some (ascii "token")) ⟨blankFlash, []⟩)) allOk .connected

theorem provisionedClient_reach :
    ((firmware (samplePlatform [package18])).device (samplePlatform [package18])
      NoToken).Reachable (.up provisionedClient) := by
  have hboot : ((firmware (samplePlatform [package18])).device (samplePlatform [package18])
      NoToken).Reachable (.up ((firmware (samplePlatform [package18])).fresh
        (Firmware.bootBuild (samplePlatform [package18]) ⟨blankFlash, []⟩) .ota0
        ((firmware (samplePlatform [package18])).appMain (samplePlatform [package18])
          (some (ascii "token")) ⟨blankFlash, []⟩))) :=
    .step (l := .done (.boot (some (ascii "token")))) (.init ⟨blankFlash, rfl, rfl⟩) trivial rfl
  exact .step (l := .done (.step (.event allOk .connected))) hboot trivial rfl

/-- Version 1.8 is announced, its one chunk is sent, and the device restarts. -/
theorem release_deploys_sample : ∃ c c' : Client,
    ((firmware (samplePlatform [package18])).device (samplePlatform [package18]) NoToken).exec
      (.up c) [.reset, .done (.boot none)] = some (.up c') ∧
    Deployed (samplePlatform [package18]) release18 (ascii "token") provisionedClient c' := by
  have hrun : ((⟨provisionedClient, [], []⟩ : Net).next (samplePlatform [package18])
      (.client (.event allOk (.data attributesTopic package18.text)))).any (fun s =>
        s.requests = [requestTopic 1 0] ∧
          (s.next (samplePlatform [package18]) (.serve 0 (ascii "abc"))).any (fun t =>
            (t.next (samplePlatform [package18]) (.deliver 0 allOk)).isSome) = true) = true := by
    decide +kernel
  obtain ⟨s, hoffer, hrequests, ht⟩ := Machine.exists_of_any hrun
  obtain ⟨t, hserve, hu⟩ := (Option.any_eq_true _ _).mp ht
  obtain ⟨u, hdeliver⟩ := Option.isSome_iff_exists.mp hu
  have hhonest : Honest release18.image s (.serve 0 (ascii "abc")) := by
    intro id i hrequest
    rw [hrequests, List.getElem?_cons_zero, Option.some_inj] at hrequest
    obtain ⟨-, hi⟩ := requestTopic_injective hrequest
    subst hi
    decide
  have hdelivers : Honest release18.image t (.deliver 0 allOk) := allOk_succeed
  have htransfer : (net (samplePlatform [package18])).Run (Honest release18.image) s
      [.serve 0 (ascii "abc"), .deliver 0 allOk] u :=
    (Machine.Run.single hhonest hserve).trans (Machine.Run.single hdelivers hdeliver)
  have hfields : release18.version ≠ provisionedClient.build.version ∧
      provisionedClient.journal.disk.nvs .failedFw ≠ some release18.version ∧
      provisionedClient.journal.disk.nvs .accessToken = some (ascii "token") := by
    decide +kernel
  obtain ⟨token, c', htoken, -, hexec, hdeployed, -⟩ := release_deploys none
    provisionedClient_reach rfl release18_genuine package18_announces rfl hfields.1 hfields.2.1
    allOk_succeed (by decide) hoffer htransfer rfl
  rw [hfields.2.2, Option.some_inj] at htoken
  subst htoken
  exact ⟨u.client, c', hexec, hdeployed⟩

end Winegrid.ThingsBoard
