import WchLwip.Model.Descriptors

/-! `init_phy` from the software reset of the MAC to the start of the DMA.

The registers answer with sequences of values, one for each read, and a run is
what the function does with them. Writes that depend on no read are left out. -/
namespace WchLwip

open Mask

/-! ### Registers -/

def ethDmabmrSr : Word := 0x00000001
def maccrClearMask : Word := 0xFF20810F
def ethInternalPullUpResEnable : Word := 0x00100000

def phyBcr : Nat := 0
def phyBsr : Nat := 1

def phyReset : BitVec 16 := 0x8000
def phyAutoNegoComplete : BitVec 16 := 0x0020
def phyLinkedStatus : BitVec 16 := 0x0004

/-! ### `ETH_InitStructure` -/

def ethSpeed10M : Word := 0x00000000
def ethSpeed1000M : Word := 0x00008000
def ethModeFullDuplex : Word := 0x00000800
def ethModeHalfDuplex : Word := 0x00000000
def ethChecksumOffloadEnable : Word := 0x00000400
def ethRetryTransmissionDisable : Word := 0x00000200

/-- The members of `ETH_InitTypeDef` that make up `MACCR`. -/
structure EthInitTypeDef where
  ethWatchdog : Word
  ethJabber : Word
  ethInterFrameGap : Word
  ethCarrierSense : Word
  ethSpeed : Word
  ethReceiveOwn : Word
  ethLoopbackMode : Word
  ethMode : Word
  ethChecksumOffload : Word
  ethRetryTransmission : Word
  ethAutomaticPadCrcStrip : Word
  ethBackOffLimit : Word
  ethDeferralCheck : Word

/-- `ETH_StructInit` -/
def ethStructInit : EthInitTypeDef where
  ethWatchdog := 0
  ethJabber := 0
  ethInterFrameGap := 0
  ethCarrierSense := 0
  ethSpeed := ethSpeed10M
  ethReceiveOwn := 0
  ethLoopbackMode := 0
  ethMode := ethModeHalfDuplex
  ethChecksumOffload := 0
  ethRetryTransmission := 0
  ethAutomaticPadCrcStrip := 0
  ethBackOffLimit := 0
  ethDeferralCheck := 0

/-- As `init_phy` fills it before it waits for the PHY. -/
def ethInitStructure : EthInitTypeDef :=
  { ethStructInit with
    ethMode := ethModeFullDuplex
    ethSpeed := ethSpeed1000M
    ethLoopbackMode := 0
    ethRetryTransmission := ethRetryTransmissionDisable
    ethAutomaticPadCrcStrip := 0
    ethChecksumOffload := ethChecksumOffloadEnable }

/-- `tmpreg`, given the value of `MACCR` before -/
def EthInitTypeDef.maccr (init : EthInitTypeDef) (maccr : Word) : Word :=
  (maccr &&& maccrClearMask) |||
    (init.ethWatchdog ||| init.ethJabber ||| init.ethInterFrameGap ||| init.ethCarrierSense |||
      init.ethSpeed ||| init.ethReceiveOwn ||| init.ethLoopbackMode ||| init.ethMode |||
      init.ethChecksumOffload ||| init.ethRetryTransmission ||| init.ethAutomaticPadCrcStrip |||
      init.ethBackOffLimit ||| init.ethDeferralCheck)

/-! ### What the function does -/

/-- One step that can be seen from outside; `block` is `while (1);`. -/
inductive PhyAction where
  | readDmabmr (value : Word)
  | writeDmabmr (value : Word)
  | readPhyRegister (phyReg : Nat) (value : BitVec 16)
  | writePhyRegister (phyReg : Nat) (value : BitVec 16)
  | writeMaccr (value : Word)
  | ethStart
  | vTaskDelay (ms : Nat)
  | printf (text : String)
  | block
deriving DecidableEq

/-- The values that successive reads return. `ETH_ReadPHYRegister` returns some value also when
the PHY does not answer. -/
structure PhyReads where
  dmabmr : Nat → Word
  phyBcr : Nat → BitVec 16
  phyBsr : Nat → BitVec 16
  phySr : BitVec 16
  maccr : Nat → Word

/-- The four waits: `timeout` is set, and tested once if the condition is still pending. -/
def waitFor (timeout : Word) (expired : Word → Bool) (message : String) (blocks : Bool) (ms : Nat)
    (pending : Bool) (rest : List PhyAction) : List PhyAction :=
  -- `if`, and not `while`
  if pending then
    let timeout := timeout - 1
    if expired timeout then
      if blocks then [.printf message, .block] else .printf message :: .vTaskDelay ms :: rest
    else .vTaskDelay ms :: rest
  else rest

def softResetTimeout : String :=
  "Error:Eth soft-reset timeout!\nPlease check RGMII TX & RX clock line. \r\n"

def phyResetTimeout : String :=
  "Error:Wait phy software timeout!\nPlease cheak PHY/MID.\nProgram has been blocked!\n"

def linkTimeout : String :=
  "Error:Wait phy linking timeout!\nPlease cheak MID.\nProgram has been blocked!\n"

def autoNegoTimeout : String :=
  "Error:Wait phy auto-negotiation complete timeout!\nPlease cheak MID.\n" ++
    "Program has been blocked!\n"

/-- Wait for software reset -/
def waitSoftReset (dmabmr : Word) : List PhyAction → List PhyAction :=
  waitFor 10 (fun timeout => timeout == 0) softResetTimeout false 100 (isSet dmabmr ethDmabmrSr)

def waitPhyReset (regValue : BitVec 16) : List PhyAction → List PhyAction :=
  waitFor 10000 (fun timeout => decide (timeout ≤ 0)) phyResetTimeout true 1000
    (isSet regValue phyReset)

def waitLink (regValue : BitVec 16) : List PhyAction → List PhyAction :=
  waitFor 10000 (fun timeout => decide (timeout ≤ 0)) linkTimeout true 1000
    (!isSet regValue phyLinkedStatus)

def waitAutoNego (regValue : BitVec 16) : List PhyAction → List PhyAction :=
  waitFor 10000 (fun timeout => decide (timeout ≤ 0)) autoNegoTimeout true 1000
    (!isSet regValue phyAutoNegoComplete)

/-- From the read of the duplex status to the end. -/
def startMac (reads : PhyReads) : List PhyAction :=
  let full := isSet reads.phySr (1 <<< 2)
  let init := { ethInitStructure with
    ethMode := if full then ethModeFullDuplex else ethModeHalfDuplex
    ethSpeed := ethSpeed10M }
  let loopback : List PhyAction :=
    if isSet reads.phySr (1 <<< 3) then [.printf "Loopback_10M \r\n"] else []
  .readPhyRegister 0x10 reads.phySr :: .printf "PHY_SR value:%04x. \r\n" ::
  .printf (if full then "Full Duplex. \r\n" else "Half Duplex. \r\n") :: (loopback ++
    [.vTaskDelay 10, .writeMaccr (init.maccr (reads.maccr 0)),
      -- `USE10BASE_T` is defined
      .writeMaccr (reads.maccr 1 ||| ethInternalPullUpResEnable), .ethStart])

/-- `init_phy` from `ETH_SoftwareReset` on; that call reads `DMABMR` too, to set the bit. -/
def initPhy (reads : PhyReads) : List PhyAction :=
  .readDmabmr (reads.dmabmr 0) :: .writeDmabmr (reads.dmabmr 0 ||| ethDmabmrSr) ::
  .readDmabmr (reads.dmabmr 1) ::
  waitSoftReset (reads.dmabmr 1)
    (.writePhyRegister phyBcr phyReset :: .vTaskDelay 100 ::
    .readPhyRegister phyBcr (reads.phyBcr 0) ::
    waitPhyReset (reads.phyBcr 0)
      (.readPhyRegister phyBsr (reads.phyBsr 0) ::
      waitLink (reads.phyBsr 0)
        (.readPhyRegister phyBsr (reads.phyBsr 1) ::
        waitAutoNego (reads.phyBsr 1) (startMac reads))))

end WchLwip
