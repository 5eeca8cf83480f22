import Gec6818Bl1.Boot.ImagePlacement
import Gec6818Bl1.Sdmmc.OpenOnEmulator

/-!
# iSDXCBOOT

The loader on its driver, and the driver on the emulator. `iSDXCBOOT` initializes the port, runs
`SDMMCBOOT` and closes the card; `SdPort.host` is the driver as `SDMMCBOOT` calls it.

* **The driver is a host.** What a read stores does not depend on the buffer or on the memory
  (`readSectors_stores`), so that the bytes a host answers with are what the driver stores
  (`readSectors_host`).
* **Refinement.** A host that `ActsAs` another, once the card is open, loads the same
  (`sdmmcBoot_actsAs`). On the emulator the driver acts as an ideal card with its image
  (`host_actsAs`).
* **The boot from a card.** Of the ideal card it is known when it boots and what is loaded then
  (`sdmmcBoot_idealCard`), and so of `iSDXCBOOT` on the emulator (`iSdxcBoot_ideal`), from every
  state that a guest can leave it in (`iSdxcBoot_emulator`).
-/

namespace Gec6818Bl1

open ByteMem Polling

namespace Sdmmc

open AppCommand (SdxcCard)

/-! ## What a read stores -/

section Stores

variable {σ : Type*} {bus : SdxcBus σ} {w w' : ℕ}

/-- The state of a read with another buffer and another memory. -/
def ReadState.rebase (pdwBuffer : BitVec w') (mem : Traced w') (s : ReadState w σ) :
    ReadState w' σ where
  count := s.count
  pdwBuffer := pdwBuffer + BitVec.ofNat w' (4 * s.popped.length)
  mem := mem.storeWords pdwBuffer s.popped
  popped := s.popped
  dev := s.dev

variable {pdwBuffer : BitVec w'} {mem : Traced w'}

theorem readFifo_rebase (s : ReadState w σ) :
    readFifo bus (s.rebase pdwBuffer mem) = (readFifo bus s).rebase pdwBuffer mem := by
  simp only [readFifo, popFifo_eq, ReadState.rebase, Traced.storeWords_append, List.length_append,
    length_fifoWords, Nat.mul_add, ofNat_add]

theorem receive_rebase (s : ReadState w σ) :
    receive bus (s.rebase pdwBuffer mem) =
      Sum.map (ReadState.rebase pdwBuffer mem) (ReadState.rebase pdwBuffer mem)
        (receive bus s) := by
  unfold receive
  rw [show (s.rebase pdwBuffer mem).dev = s.dev from rfl]
  rcases dataReady bus s.dev with ⟨_ | _, dev⟩
  · rfl
  · dsimp only
    rcases pollFifo bus sdmmcTimeout dev with ⟨timeout, dev'⟩
    have hdev : ({ s.rebase pdwBuffer mem with dev := dev' } : ReadState w' σ) =
        ReadState.rebase pdwBuffer mem { s with dev := dev' } := rfl
    simp only [Bool.not_true, Bool.false_eq_true, if_false]
    rw [apply_ite (Sum.map _ _), hdev, readFifo_rebase]
    rfl

/-- A result, likewise. -/
def rebaseResult (pdwBuffer : BitVec w') (mem : Traced w') (r : Bool × ReadState w σ) :
    Bool × ReadState w' σ := (r.1, r.2.rebase pdwBuffer mem)

theorem checkRead_rebase (nxDebug : Bool) (s : ReadState w σ) :
    checkRead bus nxDebug (s.rebase pdwBuffer mem) =
      Sum.map (ReadState.rebase pdwBuffer mem) (rebaseResult pdwBuffer mem)
        (checkRead bus nxDebug s) := by
  unfold checkRead
  dsimp only
  rw [apply_ite (Sum.map (ReadState.rebase pdwBuffer mem) (rebaseResult pdwBuffer mem)),
    apply_ite (Sum.map (ReadState.rebase pdwBuffer mem) (rebaseResult pdwBuffer mem))]
  rfl

theorem readSectorBody_rebase (nxDebug : Bool) (s : ReadState w σ) :
    readSectorBody bus nxDebug (s.rebase pdwBuffer mem) =
      Sum.map (ReadState.rebase pdwBuffer mem) (rebaseResult pdwBuffer mem)
        (readSectorBody bus nxDebug s) := by
  unfold readSectorBody
  rw [apply_ite (Sum.map (ReadState.rebase pdwBuffer mem) (rebaseResult pdwBuffer mem)),
    receive_rebase]
  refine ite_congr rfl (fun _ => rfl) fun _ => ?_
  cases receive bus s with
  | inl s' => exact checkRead_rebase nxDebug s'
  | inr s' => rfl

/-- A memory to read to. -/
def scratch : Traced 32 := ⟨fun _ => 0, []⟩

theorem readSectorData_rebase (nxDebug : Bool) (fuel : ℕ) (numberOfSector : U32)
    (pdwBuffer : BitVec w') (mem : Traced w') (dev : σ) :
    readSectorData bus nxDebug fuel numberOfSector pdwBuffer mem dev =
      (readSectorData bus nxDebug fuel numberOfSector 0 scratch dev).map
        (rebaseResult pdwBuffer mem) := by
  have hstart : startRead numberOfSector pdwBuffer mem dev =
      (startRead numberOfSector 0 scratch dev).rebase pdwBuffer mem := by
    simp [startRead, ReadState.rebase, Traced.storeWords]
  rw [readSectorData, hstart]
  exact run_map (readSectorBody_rebase nxDebug) fuel _

/-- What a read does, and the words that it stores. -/
def stores (pdwBuffer : BitVec w') (mem : Traced w') (r : Bool × List U32 × σ) :
    Bool × Traced w' × σ := (r.1, mem.storeWords pdwBuffer r.2.1, r.2.2)

theorem readSectorsToEnd_stores (nxDebug : Bool) (fuel : ℕ) (st : SdxcBootStatus)
    (sectorNum numberOfSector : U32) (dev : σ) :
    ∃ r, ∀ {w : ℕ} (pdwBuffer : BitVec w) (mem : Traced w),
      readSectorsToEnd bus nxDebug fuel st sectorNum numberOfSector pdwBuffer mem dev =
        Option.map (stores pdwBuffer mem) r := by
  simp only [readSectorsToEnd, Option.bind_eq_bind]
  rcases run (waitNotBusy bus) fuel dev with _ | dev₁
  · exact ⟨none, fun _ _ => rfl⟩
  simp only [Option.bind_some]
  rcases (run (waitTransferState bus fuel st) fuel dev₁).join with _ | ⟨_ | _, dev₂⟩
  · exact ⟨none, fun _ _ => rfl⟩
  · exact ⟨some (false, [], dev₂), fun _ _ => rfl⟩
  simp only [Option.bind_some, Bool.not_true, Bool.false_eq_true, if_false]
  rcases sendCommand bus fuel st (readCommand st sectorNum numberOfSector) _ with _ | ⟨cmd, dev₃⟩
  · exact ⟨none, fun _ _ => rfl⟩
  simp only [Option.bind_some]
  by_cases hstatus : cmd.status = 0
  · simp only [hstatus, ne_eq, not_true_eq_false, if_false]
    have hrebase {w : ℕ} (pdwBuffer : BitVec w) (mem : Traced w) :=
      @readSectorData_rebase _ bus _ nxDebug fuel numberOfSector pdwBuffer mem dev₃
    rcases hread : readSectorData bus nxDebug fuel numberOfSector 0 scratch dev₃ with
      _ | ⟨_ | _, s⟩
    · exact ⟨none, fun pdwBuffer mem => by rw [hrebase, hread]; rfl⟩
    · exact ⟨some (false, s.popped, s.dev), fun pdwBuffer mem => by rw [hrebase, hread]; rfl⟩
    let dev₄ := (bus.read Reg.status (bus.read Reg.status (bus.read Reg.status s.dev).2).2).2
    by_cases hmany : numberOfSector > 1
    · simp only [hmany, if_true]
      rcases hstop : run (waitAutoStop bus) fuel dev₄ with _ | dev₅
      · refine ⟨none, fun pdwBuffer mem => ?_⟩
        rw [hrebase, hread]
        exact congrArg (Option.bind · _) hstop
      · refine ⟨some (true, s.popped, if nxDebug then
          (bus.read (Reg.resp 1) (bus.read Reg.status dev₅).2).2 else (bus.read Reg.status dev₅).2),
          fun pdwBuffer mem => ?_⟩
        rw [hrebase, hread]
        exact congrArg (Option.bind · _) hstop
    · simp only [hmany, if_false]
      refine ⟨some (true, s.popped, dev₄), fun pdwBuffer mem => ?_⟩
      rw [hrebase, hread]
      rfl
  · simp only [hstatus, ne_eq, not_false_eq_true, if_true]
    exact ⟨some (false, [], dev₃), fun _ _ => rfl⟩

/-- **What a read stores** does not depend on where it stores it. -/
theorem readSectors_stores (bus : SdxcBus σ) (nxDebug : Bool) (fuel : ℕ) (st : SdxcBootStatus)
    (sectorNum numberOfSector : U32) (dev : σ) :
    ∃ r, ∀ {w : ℕ} (pdwBuffer : BitVec w) (mem : Traced w),
      readSectors bus nxDebug fuel st sectorNum numberOfSector pdwBuffer mem dev =
        Option.map (stores pdwBuffer mem) r := by
  obtain ⟨r, hr⟩ :=
    @readSectorsToEnd_stores _ bus nxDebug fuel st sectorNum numberOfSector dev
  simp only [readSectors, hr, Option.bind_eq_bind]
  rcases r with _ | ⟨_ | _, ws, dev₁⟩
  · exact ⟨none, fun _ _ => rfl⟩
  · simp only [Option.map_some, stores, Option.bind_some, Bool.false_eq_true, if_false]
    rcases sendCommandInternal bus fuel stopCommand dev₁ with _ | ⟨_, dev₂⟩
    · exact ⟨none, fun _ _ => rfl⟩
    simp only [Option.bind_some]
    by_cases hempty : (bus.read Reg.status dev₂).1.getLsbD Status.fifoEmpty = true
    · simp only [hempty, if_true]
      exact ⟨some (false, ws, _), fun _ _ => rfl⟩
    · simp only [hempty]
      rcases run (waitFifoReset bus) fuel _ with _ | dev₃
      · exact ⟨none, fun _ _ => rfl⟩
      · exact ⟨some (false, ws, dev₃), fun _ _ => rfl⟩
  · exact ⟨some (true, ws, dev₁), fun _ _ => rfl⟩

end Stores

/-! ## The driver as the loader calls it -/

section Host

variable {σ : Type} (port : SdPort σ) (nxDebug : Bool) (mode : OpMode) (fuel : ℕ) (srcFreq : U32)

/-- The driver and what `NX_SDMMC_Open` found out; `none` once a call has run out of fuel. -/
def SdPort.host : SdHost (Option (SdxcCard × σ)) where
  sdmmcOpen sd :=
    match sd.bind fun (card, dev) => port.sdmmcOpen nxDebug mode fuel srcFreq card dev with
    | some (opened, card, dev) => (opened, some (card, dev))
    | none => (false, none)
  fifoEmpty sd :=
    match sd with
    | some (card, dev) =>
      let (status, dev) := port.sdxc.read Reg.status dev
      (status.getLsbD Status.fifoEmpty, some (card, dev))
    | none => (true, none)
  fifoReset sd := sd.bind fun (card, dev) =>
    (run (waitFifoReset port.sdxc) fuel (port.sdxc.write Reg.ctrl (bit Ctrl.fifoRst) dev)).map
      (card, ·)
  readSectors sectorNum numberOfSector sd :=
    match sd.bind fun (card, dev) => (readSectors port.sdxc nxDebug fuel card.toSdxcBootStatus
        sectorNum numberOfSector 0 scratch dev).map (card, ·) with
    | some (card, result, mem, dev) => (result, mem.log.flatMap (·.2), some (card, dev))
    | none => (false, [], none)

/-- `iSDXCBOOT`: its result, the memory and the port; the pads are left out. -/
def iSdxcBoot (env : BootEnv mode) (sdPort : Fin 3) (card : SdxcCard) (mem : Mem mode.width)
    (dev : σ) : Option (Bool × Mem mode.width × σ) := do
  let dev ← Clk.init port.clk mode fuel srcFreq sdPort dev
  let boot := sdmmcBoot (port.host nxDebug mode fuel srcFreq) env ⟨mem, some (card, dev)⟩
  let (_, dev) ← boot.sd
  let dev ← port.sdmmcClose nxDebug mode fuel srcFreq dev
  let dev ← Clk.terminate port.clk fuel sdPort dev
  return (boot.result, boot.mem, dev)

variable {port nxDebug mode fuel srcFreq}

theorem log_storeWords {w : ℕ} (t : Traced w) (p : BitVec w) (ws : List U32) :
    (t.storeWords p ws).log.flatMap (·.2) = t.log.flatMap (·.2) ++ wordBytes ws := by
  induction ws generalizing t p with
  | nil => exact (List.append_nil _).symm
  | cons x ws ih =>
    rw [Traced.storeWords, ih, wordBytes_cons, ← List.append_assoc, Traced.store,
      List.flatMap_append, List.flatMap_singleton]

/-- **The driver is a host.** The bytes it answers with as a host are those it stores, wherever the
buffer is. -/
theorem readSectors_host {w : ℕ} {card : SdxcCard} {dev dev' : σ} {result : Bool}
    {sectorNum numberOfSector : U32} {pdwBuffer : BitVec w} {mem mem' : Traced w}
    (h : readSectors port.sdxc nxDebug fuel card.toSdxcBootStatus sectorNum numberOfSector pdwBuffer
      mem dev = some (result, mem', dev')) :
    ∃ bytes, (port.host nxDebug mode fuel srcFreq).readSectors sectorNum numberOfSector
        (some (card, dev)) = (result, bytes, some (card, dev')) ∧
      mem' = mem.storeWords pdwBuffer (toWords bytes) := by
  obtain ⟨r, hr⟩ := readSectors_stores port.sdxc nxDebug fuel card.toSdxcBootStatus sectorNum
    numberOfSector dev
  rw [hr] at h
  rcases r with _ | ⟨result', ws, dev₁⟩
  · cases h
  have hstored : (result', mem.storeWords pdwBuffer ws, dev₁) = (result, mem', dev') :=
    Option.some.inj h
  simp only [Prod.mk.injEq] at hstored
  obtain ⟨rfl, rfl, rfl⟩ := hstored
  have hlog : (scratch.storeWords 0 ws).log.flatMap (·.2) = wordBytes ws := log_storeWords _ _ _
  refine ⟨wordBytes ws, ?_, by rw [toWords_wordBytes]⟩
  simp only [SdPort.host, Option.bind_some, hr, Option.map_some, stores, hlog]

end Host

end Sdmmc

/-! ## Refinement -/

section Refinement

variable {mode : OpMode} {σ τ : Type*} {host : SdHost σ} {ideal : SdHost τ} {R : σ → τ → Prop}
  {env : BootEnv mode}

/-- A host does what another one does, once the card is open. No read of the loader is of more than
`2 ^ 23` sectors. -/
structure SdHost.ActsAs (host : SdHost σ) (ideal : SdHost τ) (R : σ → τ → Prop) : Prop where
  fifoEmpty : ∀ sd td, R sd td → (host.fifoEmpty sd).1 = (ideal.fifoEmpty td).1 ∧
    R (host.fifoEmpty sd).2 (ideal.fifoEmpty td).2
  fifoReset : ∀ sd td, R sd td → R (host.fifoReset sd) (ideal.fifoReset td)
  readSectors : ∀ sector n sd td, n.toNat < 2 ^ 23 → R sd td →
    (host.readSectors sector n sd).1 = (ideal.readSectors sector n td).1 ∧
      (host.readSectors sector n sd).2.1 = (ideal.readSectors sector n td).2.1 ∧
      R (host.readSectors sector n sd).2.2 (ideal.readSectors sector n td).2.2

theorem toNat_sectors_lt (x : BitVec 32) : (x / 512).toNat < 2 ^ 23 := by
  have hx := x.isLt
  rw [BitVec.toNat_udiv]
  show x.toNat / 512 < 2 ^ 23
  omega

/-- The two hosts have come to the same result, memory and stores, and are still related. -/
structure SameResult (R : σ → τ → Prop) (r : Bool × BootState mode σ)
    (r' : Bool × BootState mode τ) : Prop where
  result : r.1 = r'.1
  mem : r.2.mem = r'.2.mem
  sd : R r.2.sd r'.2.sd

theorem SdHost.ActsAs.readBootHeader (h : host.ActsAs ideal R) (env : BootEnv mode)
    (mem : Mem mode.width) {sd : σ} {td : τ}
    (hopen : (host.sdmmcOpen sd).1 = (ideal.sdmmcOpen td).1)
    (hR : R (host.sdmmcOpen sd).2 (ideal.sdmmcOpen td).2) :
    SameResult R (readBootHeader host env ⟨mem, sd⟩) (readBootHeader ideal env ⟨mem, td⟩) := by
  rcases hh : host.sdmmcOpen sd with ⟨opened, sd₀⟩
  rcases hi : ideal.sdmmcOpen td with ⟨opened', td₀⟩
  rw [hh, hi] at hopen hR
  obtain rfl : opened = opened' := hopen
  cases opened
  · simp only [Gec6818Bl1.readBootHeader, hh, hi]
    exact ⟨rfl, rfl, hR⟩
  obtain ⟨hempty, hR₁⟩ := h.fifoEmpty sd₀ td₀ hR
  rcases hostFifo : host.fifoEmpty sd₀ with ⟨empty, sd₁⟩
  rcases idealFifo : ideal.fifoEmpty td₀ with ⟨empty', td₁⟩
  rw [hostFifo, idealFifo] at hempty hR₁
  obtain rfl : empty = empty' := hempty
  have hR₂ : R (if empty then sd₁ else host.fifoReset sd₁)
      (if empty then td₁ else ideal.fifoReset td₁) := by
    cases empty
    · exact h.fifoReset _ _ hR₁
    · exact hR₁
  simp only [Gec6818Bl1.readBootHeader, hh, hi, hostFifo, idealFifo, Bool.not_true,
    Bool.false_eq_true, if_false]
  generalize (if empty = true then sd₁ else host.fifoReset sd₁) = sd₂ at hR₂ ⊢
  generalize (if empty = true then td₁ else ideal.fifoReset td₁) = td₂ at hR₂ ⊢
  obtain ⟨hresult, hbytes, hR₃⟩ := h.readSectors
    (SecondBootInfo.deviceaddr mem (pSBI mode) / 512) 1 sd₂ td₂ (by decide) hR₂
  rcases hostRead : host.readSectors (SecondBootInfo.deviceaddr mem (pSBI mode) / 512) 1 sd₂ with
    ⟨result, bytes, sd₃⟩
  rcases idealRead : ideal.readSectors (SecondBootInfo.deviceaddr mem (pSBI mode) / 512) 1 td₂ with
    ⟨result', bytes', td₃⟩
  rw [hostRead, idealRead] at hresult hbytes hR₃
  obtain rfl : result = result' := hresult
  obtain rfl : bytes = bytes' := hbytes
  simp only [hostRead, idealRead]
  cases result
  · exact ⟨rfl, rfl, hR₃⟩
  · simp only [Bool.not_true, Bool.false_eq_true, if_false]
    split_ifs <;> exact ⟨rfl, rfl, hR₃⟩

theorem SdHost.ActsAs.loadImage (h : host.ActsAs ideal R) (env : BootEnv mode)
    {mem : Mem mode.width} {sd : σ} {td : τ} (hR : R sd td) :
    SameResult R
      ((loadImage host env ⟨mem, sd⟩).result, (loadImage host env ⟨mem, sd⟩).toBootState)
      ((loadImage ideal env ⟨mem, td⟩).result, (loadImage ideal env ⟨mem, td⟩).toBootState) := by
  simp only [Gec6818Bl1.loadImage]
  generalize (SecondBootInfo.deviceaddr _ (pSBI mode) / 512 + 1 : BitVec 32) = sector
  generalize (Tbbinfo.loadsize _ _ + 512 - 1 : BitVec 32) = x
  obtain ⟨hresult, hbytes, hR'⟩ := h.readSectors sector (x / 512) sd td (toNat_sectors_lt x) hR
  rcases hostRead : host.readSectors sector (x / 512) sd with ⟨result, bytes, sd'⟩
  rcases idealRead : ideal.readSectors sector (x / 512) td with ⟨result', bytes', td'⟩
  rw [hostRead, idealRead] at hresult hbytes hR'
  obtain rfl : result = result' := hresult
  obtain rfl : bytes = bytes' := hbytes
  simp only [hostRead, idealRead]
  exact ⟨rfl, rfl, hR'⟩

/-! The three ways through `SDMMCBOOT`. -/

theorem sdmmcBoot_of_failed {s s' : BootState mode σ}
    (hread : readBootHeader host env s = (false, s')) :
    sdmmcBoot host env s = { s' with result := false, loads := ⟨s'.mem, []⟩ } := by
  rw [sdmmcBoot, hread]

theorem sdmmcBoot_of_refused {s s' : BootState mode σ}
    (hread : readBootHeader host env s = (true, s')) (hrefused : refused env s'.mem = true) :
    sdmmcBoot host env s = { s' with result := false, loads := ⟨s'.mem, []⟩ } := by
  rw [sdmmcBoot, hread]
  exact if_pos hrefused

theorem sdmmcBoot_of_accepted {s s' : BootState mode σ}
    (hread : readBootHeader host env s = (true, s')) (hrefused : refused env s'.mem = false) :
    sdmmcBoot host env s = loadImage host env s' := by
  rw [sdmmcBoot, hread]
  exact if_neg (Bool.eq_false_iff.1 hrefused)

/-- **Refinement.** A host that acts as another one, once the card is open, boots the same. -/
theorem sdmmcBoot_actsAs (h : host.ActsAs ideal R) (env : BootEnv mode) (mem : Mem mode.width)
    {sd : σ} {td : τ} (hopen : (host.sdmmcOpen sd).1 = (ideal.sdmmcOpen td).1)
    (hR : R (host.sdmmcOpen sd).2 (ideal.sdmmcOpen td).2) :
    SameResult R
      ((sdmmcBoot host env ⟨mem, sd⟩).result, (sdmmcBoot host env ⟨mem, sd⟩).toBootState)
      ((sdmmcBoot ideal env ⟨mem, td⟩).result, (sdmmcBoot ideal env ⟨mem, td⟩).toBootState) := by
  have hheader := h.readBootHeader env mem hopen hR
  rcases hh : readBootHeader host env ⟨mem, sd⟩ with ⟨ok, mem', sd'⟩
  rcases hi : readBootHeader ideal env ⟨mem, td⟩ with ⟨ok', mem'', td'⟩
  rw [hh, hi] at hheader
  obtain rfl : ok = ok' := hheader.result
  obtain rfl : mem' = mem'' := hheader.mem
  cases ok
  · rw [sdmmcBoot_of_failed hh, sdmmcBoot_of_failed hi]
    exact ⟨rfl, rfl, hheader.sd⟩
  · cases hrefused : refused env mem'
    · rw [sdmmcBoot_of_accepted hh hrefused, sdmmcBoot_of_accepted hi hrefused]
      exact h.loadImage env hheader.sd
    · rw [sdmmcBoot_of_refused hh hrefused, sdmmcBoot_of_refused hi hrefused]
      exact ⟨rfl, rfl, hheader.sd⟩

end Refinement

/-! ## The ideal card -/

section IdealCard

variable {mode : OpMode} {env : BootEnv mode} {device : ℕ → Byte} {mem : Mem mode.width} {dev : ℕ}

/-- A card that always answers. -/
def idealCard (device : ℕ → Byte) : SdHost Unit where
  sdmmcOpen _ := (true, ())
  fifoEmpty _ := (true, ())
  fifoReset _ := ()
  readSectors sector n _ := (true, sectorBytes device sector.toNat n.toNat, ())

theorem idealCard_reads (device : ℕ → Byte) : (idealCard device).Reads device := by
  intro sector n sd bytes sd' h
  exact (congrArg (fun r => r.2.1) h).symm

/-- The header at `dev` on the card is signed, and its image does not overlap the SRAM. -/
def Bootable (device : ℕ → Byte) (dev : ℕ) : Prop :=
  SecondBootInfo.signature (deviceHeader device dev) 0 = headerId ∧
    overlapsSram (Tbbinfo.loadaddr (deviceHeader device dev) 0)
      (Tbbinfo.loadsize (deviceHeader device dev) 0) = false

/-- The image at `dev` on the card is in memory, and `*pTBI` says where to launch it. -/
structure Placed (env : BootEnv mode) (device : ℕ → Byte) (dev : ℕ) (mem mem' : Mem mode.width) :
    Prop where
  image : ∀ k < 0x400 + (Tbbinfo.loadsize (deviceHeader device dev) 0).toNat,
    mem' (mptrs mode (Tbbinfo.loadaddr (deviceHeader device dev) 0) + BitVec.ofNat _ k) =
      if 0x50 ≤ k ∧ k < 0x54 then
        (leBytes (Tbbinfo.loadsize (deviceHeader device dev) 0 + 0x400)).getD (k - 0x50) 0
      else device (dev + k)
  launchaddr : (SecondBootInfo.launchaddr mem' env.pTBI).toNat =
    (Tbbinfo.startaddr (deviceHeader device dev) 0).toNat
  frame : ∀ a, a ∉ block env.pTBI 512 →
    a ∉ block (mptrs mode (Tbbinfo.loadaddr (deviceHeader device dev) 0)) (0x200 + 512 *
      (((Tbbinfo.loadsize (deviceHeader device dev) 0).toNat + 0x400 + 511) / 512)) →
    mem' a = mem a

/-- The header sector in `*pTBI`. -/
theorem readBootHeader_idealCard (hdec : env.decrypts = false)
    (haddr : (SecondBootInfo.deviceaddr mem (pSBI mode)).toNat = dev) (hdev : 512 ∣ dev) :
    readBootHeader (idealCard device) env ⟨mem, ()⟩ =
      (decide (SecondBootInfo.signature (deviceHeader device dev) 0 = headerId),
        ⟨write mem env.pTBI (sectorBytes device (dev / 512) 1), ()⟩) := by
  have hread : (idealCard device).readSectors
      (SecondBootInfo.deviceaddr mem (pSBI mode) / 512) 1 () =
        (true, sectorBytes device (dev / 512) 1, ()) := by
    rw [← haddr, ← toNat_sector]
    rfl
  have hsig : SecondBootInfo.signature (write mem env.pTBI (sectorBytes device (dev / 512) 1))
      env.pTBI = SecondBootInfo.signature (deviceHeader device dev) 0 :=
    load32_copy fun k _ hk => sectorBytes_stored mem env.pTBI device hdev (by omega)
  by_cases hsigned : SecondBootInfo.signature (deviceHeader device dev) 0 = headerId
  · rw [decide_eq_true hsigned]
    exact readBootHeader_ok rfl rfl hread hdec (hsig.trans hsigned)
  · rw [decide_eq_false hsigned]
    simp only [readBootHeader, show ∀ sd, (idealCard device).sdmmcOpen sd = (true, ()) from
      fun _ => rfl, show ∀ sd, (idealCard device).fifoEmpty sd = (true, ()) from fun _ => rfl,
      hread, hdec, hsig, hsigned, Bool.not_true, Bool.false_eq_true, if_false, if_true, ne_eq,
      not_false_eq_true]

theorem loadImage_idealCard (s : BootState mode Unit) :
    (loadImage (idealCard device) env s).result = true := rfl

/-- **An ideal card** boots exactly if its header is good, and then the image is placed. -/
theorem sdmmcBoot_idealCard (hsec : env.secureOn = false) (hdec : env.decrypts = false)
    (haddr : (SecondBootInfo.deviceaddr mem (pSBI mode)).toNat = dev) (hdev : 512 ∣ dev)
    (hfit : ImageFits device dev) :
    ((sdmmcBoot (idealCard device) env ⟨mem, ()⟩).result = true ↔ Bootable device dev) ∧
      (Bootable device dev →
        Placed env device dev mem (sdmmcBoot (idealCard device) env ⟨mem, ()⟩).mem) ∧
      (¬Bootable device dev → ∀ a ∉ block env.pTBI 512,
        (sdmmcBoot (idealCard device) env ⟨mem, ()⟩).mem a = mem a) := by
  have hread : readBootHeader (idealCard device) env ⟨mem, ()⟩ = _ :=
    readBootHeader_idealCard hdec haddr hdev
  have hheader : HeaderRead device dev env mem
    (write mem env.pTBI (sectorBytes device (dev / 512) 1)) := headerRead_write mem hdev
  generalize write mem env.pTBI (sectorBytes device (dev / 512) 1) = mem₁ at hread hheader
  have hrefused : refused env mem₁ =
      overlapsSram (Tbbinfo.loadaddr (deviceHeader device dev) 0)
        (Tbbinfo.loadsize (deviceHeader device dev) 0) := by
    rw [refused, hheader.loadaddr, hheader.loadsize]
  by_cases hsigned : SecondBootInfo.signature (deviceHeader device dev) 0 = headerId
  · rw [decide_eq_true hsigned] at hread
    cases hclear : overlapsSram (Tbbinfo.loadaddr (deviceHeader device dev) 0)
      (Tbbinfo.loadsize (deviceHeader device dev) 0) with
    | false =>
      have hbootable : Bootable device dev := ⟨hsigned, hclear⟩
      rw [hclear] at hrefused
      obtain ⟨himage, hlaunch, hframe⟩ := @loadImage_places mode Unit (idealCard device) device env
        ⟨mem, ()⟩ ⟨mem₁, ()⟩ dev (idealCard_reads device) hsec hdec hdev haddr hheader hfit hrefused
        (loadImage_idealCard _)
      rw [sdmmcBoot_of_accepted hread hrefused, loadImage_idealCard]
      exact ⟨iff_of_true rfl hbootable, fun _ => ⟨himage, hlaunch, hframe⟩,
        fun hnot => absurd hbootable hnot⟩
    | true =>
      have hnot : ¬Bootable device dev := fun h => by
        rw [h.2] at hclear
        cases hclear
      rw [hclear] at hrefused
      rw [sdmmcBoot_of_refused hread hrefused]
      exact ⟨iff_of_false Bool.false_ne_true hnot, fun h => absurd h hnot,
        fun _ => hheader.frame⟩
  · rw [decide_eq_false hsigned] at hread
    rw [sdmmcBoot_of_failed hread]
    exact ⟨iff_of_false Bool.false_ne_true fun h => hsigned h.1, fun h => absurd h.1 hsigned,
      fun _ => hheader.frame⟩

end IdealCard

/-! ## On the emulator -/

section OnEmulator

open Sdmmc Emulator Emulator.Dwmmc

variable {mode : OpMode} {env : BootEnv mode} {image : List Byte} {s : Dwmmc} {fuel : ℕ}
  {srcFreq : BitVec 32}

/-- The card is open, and its controller is ready for a read. -/
def Opened (image : List Byte) (sd : Option (AppCommand.SdxcCard × Board)) : Prop :=
  ∃ s rest, sd = some (emulatedCard, some s, rest) ∧ Idle image s ∧ s.fifoEmpty

/-- **The driver on the emulator acts as an ideal card** with the image. -/
theorem host_actsAs (image : List Byte) (nxDebug : Bool) (mode : OpMode) (srcFreq : BitVec 32)
    (hfuel : 2 ^ 30 ≤ fuel) :
    (emulatorPort.host nxDebug mode fuel srcFreq).ActsAs (idealCard fun i => image.getD i 0)
      fun sd _ => Opened image sd where
  fifoEmpty := by
    rintro _ - ⟨s, rest, rfl, hs, hempty⟩
    have hwindow : window s = 0 := by
      rw [window, show s.remaining = 0 from hempty, Nat.zero_min]
    have hbit : (BitVec.ofNat 32 s.status).getLsbD Status.fifoEmpty = true := by
      rw [status_fifoEmpty, hwindow]
      rfl
    exact ⟨hbit, s, rest, rfl, hs, hempty⟩
  fifoReset := by
    rintro _ - ⟨s, rest, rfl, hs, -⟩
    have hwrite : emulatorPort.sdxc.write Reg.ctrl (bit Ctrl.fifoRst) (some s, rest) =
        (some (resetCtrl s), rest) :=
      congrArg (some ·, rest) (writeCtrl_reset s (by decide) (by decide))
    have hleaves : waitFifoReset emulator (some (resetCtrl s)) = .inr (some (resetCtrl s)) := by
      rw [waitFifoReset, read_resetCtrl]
      rfl
    have hwait : run (waitFifoReset emulatorPort.sdxc) fuel (some (resetCtrl s), rest) =
        some (some (resetCtrl s), rest) := by
      refine run_first (Nat.lt_of_lt_of_le (by decide) hfuel) ?_
      exact (waitFifoReset_fst (some (resetCtrl s))).trans (congrArg (Sum.map _ _) hleaves)
    have hparked : Parked s.card (resetCtrl s) := resetCtrl_parked hs.bits rfl
    refine ⟨resetCtrl s, rest, ?_, ⟨hs.bits, hs.holds, hparked.dma⟩, fifoEmpty_of_rest rfl⟩
    simp only [SdPort.host, Option.bind_some, hwrite, hwait, Option.map_some]
  readSectors := by
    rintro sector n _ - hn ⟨s, rest, rfl, hs, -⟩
    have hfits : n.toNat * 512 < 2 ^ 32 := by omega
    have henough : 128 * n.toNat < fuel := by omega
    obtain ⟨s', hread, hs', hempty'⟩ := readSectors_emulator hs nxDebug
      (rfl : emulatedCard.toSdxcBootStatus.bHighCapacity = true) sector hfits henough 0 scratch
    have hboard : readSectors emulatorPort.sdxc nxDebug fuel emulatedCard.toSdxcBootStatus sector n
        0 scratch (some s, rest) = some (true, scratch.storeWords 0 (toWords
          (sectorBytes (fun i => image.getD i 0) sector.toNat n.toNat)), some s', rest) :=
      (readSectors_fst nxDebug fuel emulatedCard.toSdxcBootStatus sector n 0 scratch
        (some s)).trans (congrArg (Option.map _) hread)
    have hlen : 4 ∣ (sectorBytes (fun i => image.getD i 0) sector.toNat n.toNat).length := by
      rw [length_sectorBytes]
      omega
    have hlog : (scratch.storeWords 0 (toWords
        (sectorBytes (fun i => image.getD i 0) sector.toNat n.toNat))).log.flatMap (·.2) =
        sectorBytes (fun i => image.getD i 0) sector.toNat n.toNat :=
      (log_storeWords _ _ _).trans (wordBytes_toWords hlen)
    have hhost : (emulatorPort.host nxDebug mode fuel srcFreq).readSectors sector n
        (some (emulatedCard, some s, rest)) = (true,
          sectorBytes (fun i => image.getD i 0) sector.toNat n.toNat,
          some (emulatedCard, some s', rest)) := by
      simp only [SdPort.host, Option.bind_some, hboard, Option.map_some, hlog]
    rw [hhost]
    exact ⟨rfl, rfl, s', rest, rfl, hs', hempty'⟩

theorem sdmmcOpen_host {c : SDCard} {dev : Board} (h : On (some c) dev) (nxDebug : Bool)
    (mode : OpMode) (hsrc : 50000000 ≤ srcFreq.toNat) (hfuel : 64 ≤ fuel)
    (card : AppCommand.SdxcCard) :
    ((emulatorPort.host nxDebug mode fuel srcFreq).sdmmcOpen (some (card, dev))).1 = true ∧
      Opened c.image ((emulatorPort.host nxDebug mode fuel srcFreq).sdmmcOpen
        (some (card, dev))).2 := by
  obtain ⟨⟨_, rest⟩, hopen, s, rfl, hs⟩ := sdmmcOpen_on h nxDebug mode hsrc hfuel card
  have hhost : (emulatorPort.host nxDebug mode fuel srcFreq).sdmmcOpen (some (card, dev)) =
      (true, some (emulatedCard, some s, rest)) := by
    simp only [SdPort.host, Option.bind_some, hopen]
  rw [hhost]
  exact ⟨rfl, s, rest, rfl, ⟨hs.bits, ⟨_, hs.card, rfl, rfl⟩, hs.dma⟩, fifoEmpty_of_rest hs.rest⟩

/-- `iSDXCBOOT` on the emulator does what `SDMMCBOOT` does on an ideal card with the image. -/
theorem iSdxcBoot_ideal (hreach : Reachable image s) (rest : ExtReg → BitVec 32) (nxDebug : Bool)
    (hsrc : 50000000 ≤ srcFreq.toNat) (hfuel : 2 ^ 30 ≤ fuel) (sdPort : Fin 3)
    (card : AppCommand.SdxcCard) (env : BootEnv mode) (mem : Mem mode.width) :
    ∃ dev', iSdxcBoot emulatorPort nxDebug mode fuel srcFreq env sdPort card mem (some s, rest) =
      some ((sdmmcBoot (idealCard fun i => image.getD i 0) env ⟨mem, ()⟩).result,
        (sdmmcBoot (idealCard fun i => image.getD i 0) env ⟨mem, ()⟩).mem, dev') := by
  have hfuel' : 64 ≤ fuel := Nat.le_trans (by decide) hfuel
  obtain ⟨c, rfl, hhas⟩ := has_of_reachable hreach rest
  obtain ⟨dev₁, hinit, h₁⟩ := init_on hhas mode hsrc hfuel' sdPort
  obtain ⟨hopen, hopened⟩ := sdmmcOpen_host h₁ nxDebug mode hsrc hfuel' card
  have hboot := sdmmcBoot_actsAs (host_actsAs c.image nxDebug mode srcFreq hfuel) env mem
    (show _ = ((idealCard fun i => c.image.getD i 0).sdmmcOpen ()).1 from hopen) hopened
  obtain ⟨s', rest', hsd, hidle, -⟩ := hboot.sd
  obtain ⟨c', hcard, -⟩ := hidle.holds
  have hhas' : Has (some c') (some s', rest') := ⟨s', rfl, hidle.bits, hcard⟩
  obtain ⟨dev₂, hclose, h₂⟩ :=
    sdmmcClose_on hhas' nxDebug mode (Nat.le_trans (by decide) hsrc) hfuel'
  obtain ⟨dev₃, hterminate, -⟩ := terminate_on h₂ (Nat.lt_of_lt_of_le (by decide) hfuel') sdPort
  refine ⟨dev₃, ?_⟩
  have hsd' : (sdmmcBoot (emulatorPort.host nxDebug mode fuel srcFreq) env
      ⟨mem, some (card, dev₁)⟩).sd = some (emulatedCard, some s', rest') := hsd
  have hresult' := hboot.result
  have hmem' := hboot.mem
  dsimp only at hresult' hmem'
  simp only [iSdxcBoot, hinit, Option.bind_eq_bind, Option.bind_some, hsd', hclose, hterminate,
    hresult', hmem']
  rfl

/-- **Booting from a card.** From every state that a guest can leave the emulator in, `iSDXCBOOT`
returns. It boots exactly if the header on the card is good, and then the image is placed; otherwise
nothing but `*pTBI` has changed. -/
theorem iSdxcBoot_emulator (hreach : Reachable image s) (rest : ExtReg → BitVec 32)
    (nxDebug : Bool) (hsrc : 50000000 ≤ srcFreq.toNat) (hfuel : 2 ^ 30 ≤ fuel) (sdPort : Fin 3)
    (card : AppCommand.SdxcCard) {mem : Mem mode.width} {dev : ℕ} (hsec : env.secureOn = false)
    (hdec : env.decrypts = false)
    (haddr : (SecondBootInfo.deviceaddr mem (pSBI mode)).toNat = dev) (hdev : 512 ∣ dev)
    (hfit : ImageFits (fun i => image.getD i 0) dev) :
    ∃ result mem' dev', iSdxcBoot emulatorPort nxDebug mode fuel srcFreq env sdPort card mem
        (some s, rest) = some (result, mem', dev') ∧
      (result = true ↔ Bootable (fun i => image.getD i 0) dev) ∧
      (Bootable (fun i => image.getD i 0) dev →
        Placed env (fun i => image.getD i 0) dev mem mem') ∧
      (¬Bootable (fun i => image.getD i 0) dev → ∀ a ∉ block env.pTBI 512, mem' a = mem a) := by
  obtain ⟨dev', hboot⟩ := iSdxcBoot_ideal hreach rest nxDebug hsrc hfuel sdPort card env mem
  exact ⟨_, _, dev', hboot, sdmmcBoot_idealCard hsec hdec haddr hdev hfit⟩

/-- The small image as a card file. -/
def smallImageFile : List Byte := (List.range 512).map smallImage

theorem smallImageFile_getD : (fun i => smallImageFile.getD i 0) = smallImage := by
  funext i
  by_cases hi : i < 512
  · simp [smallImageFile, hi]
  · have hzero : smallImage i = 0 := by
      unfold smallImage
      split <;> first | omega | rfl
    simp [smallImageFile, hi, hzero]

theorem smallImage_bootable : Bootable smallImage 0 := by
  constructor <;> decide +kernel

/-- It boots on a board that has just been switched on. -/
theorem iSdxcBoot_emulator_smallImage : ∃ mem' dev',
    iSdxcBoot emulatorPort true .aarch64 (2 ^ 30) 800000000 plainEnv 2 ⟨⟨0, false⟩, .unknown⟩
      zeroState.mem (some (Dwmmc.init (some { image := smallImageFile }) fun _ => 0), fun _ => 0) =
        some (true, mem', dev') ∧
    Placed plainEnv smallImage 0 zeroState.mem mem' := by
  have hreach : ∀ image, Reachable image (Dwmmc.init (some { image }) fun _ => 0) :=
    fun _ => ⟨fun _ => 0, [], rfl⟩
  have haddr : (SecondBootInfo.deviceaddr zeroState.mem (pSBI .aarch64)).toNat = 0 := by
    decide +kernel
  have hfit : ImageFits (fun i => smallImageFile.getD i 0) 0 := by
    rw [smallImageFile_getD]
    exact smallImage_fits
  obtain ⟨result, mem', dev', hboot, hresult, hplaced, -⟩ := iSdxcBoot_emulator (hreach _)
    (fun _ => 0) true (by decide : 50000000 ≤ (800000000 : BitVec 32).toNat) (Nat.le_refl (2 ^ 30))
    2 ⟨⟨0, false⟩, .unknown⟩ (rfl : plainEnv.secureOn = false) (by decide) haddr (dvd_zero 512) hfit
  rw [smallImageFile_getD] at hresult hplaced
  obtain rfl := hresult.2 smallImage_bootable
  exact ⟨mem', dev', hboot, hplaced smallImage_bootable⟩

end OnEmulator

end Gec6818Bl1
