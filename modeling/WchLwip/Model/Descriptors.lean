import WchLwip.Library.Mask
import Mathlib.Logic.Function.Basic

/-! DMA descriptors, the registers of the Ethernet DMA and their flags.

A descriptor table is indexed from its first descriptor and a buffer array from
its first byte, so `Buffer2NextDescAddr` is a descriptor index and `Buffer1Addr`
a byte offset. -/
namespace WchLwip

abbrev Word := BitVec 32

/-- `ETH_DMADESCTypeDef` -/
structure EthDmaDesc where
  status : Word
  controlBufferSize : Word
  buffer1Addr : Nat
  buffer2NextDescAddr : Nat
deriving DecidableEq

abbrev DescTab := Nat → EthDmaDesc

/-- Bytes of `Rx_Buff` or `Tx_Buff`, the buffers of the ring one after the other. -/
abbrev Bytes := Nat → UInt8

def ethMaxPacketSize : Nat := 1520

def ethRxBufNb : Nat := 4
def ethTxBufNb : Nat := 4

def ethError : Word := 0
def ethSuccess : Word := 1

/-! ### Receive descriptor bits -/

def ethDmaRxDescOwn : Word := 0x80000000
def ethDmaRxDescFl : Word := 0x3FFF0000
def ethDmaRxDescEs : Word := 0x00008000
def ethDmaRxDescFs : Word := 0x00000200
def ethDmaRxDescLs : Word := 0x00000100
def ethDmaRxDescRch : Word := 0x00004000
def ethDmaRxDescRbs1 : Word := 0x00001FFF
def ethDmaRxDescFrameLengthShift : Nat := 16

/-! ### Transmit descriptor bits -/

def ethDmaTxDescOwn : Word := 0x80000000
def ethDmaTxDescIc : Word := 0x40000000
def ethDmaTxDescLs : Word := 0x20000000
def ethDmaTxDescFs : Word := 0x10000000
def ethDmaTxDescDc : Word := 0x08000000
def ethDmaTxDescDp : Word := 0x04000000
def ethDmaTxDescTtse : Word := 0x02000000
def ethDmaTxDescCicTcpUdpIcmpFull : Word := 0x00C00000
def ethDmaTxDescTer : Word := 0x00200000
def ethDmaTxDescTch : Word := 0x00100000
def ethDmaTxDescTbs1 : Word := 0x00001FFF

/-! ### DMA status register -/

def ethDmaItNis : Word := 0x00010000
def ethDmaItR : Word := 0x00000040
def ethDmaItT : Word := 0x00000001
def ethDmasrRbus : Word := 0x00000080
def ethDmasrTbus : Word := 0x00000004

/-! ### Chain initialisation -/

/-- The loop of the two chain initialisers over the first `count` descriptors. -/
def initChain (count : Nat) (entry : Nat → EthDmaDesc → EthDmaDesc) (tab : DescTab) : DescTab :=
  (List.range count).foldl (fun tab i => Function.update tab i (entry i (tab i))) tab

/-- The successor that the chain initialisers store in descriptor `i`. -/
def nextDesc (count i : Nat) : Nat := if i < count - 1 then i + 1 else 0

theorem nextDesc_eq (count i : Nat) (inside : i < count) : nextDesc count i = (i + 1) % count := by
  unfold nextDesc
  split
  next earlier => exact (Nat.mod_eq_of_lt (by omega)).symm
  next last =>
    rw [show i + 1 = count by omega, Nat.mod_self]

private theorem initChain_succ (count : Nat) (entry : Nat → EthDmaDesc → EthDmaDesc)
    (tab : DescTab) : initChain (count + 1) entry tab =
      Function.update (initChain count entry tab) count
        (entry count (initChain count entry tab count)) := by
  simp only [initChain, List.range_succ, List.foldl_append, List.foldl_cons, List.foldl_nil]

theorem initChain_apply (count : Nat) (entry : Nat → EthDmaDesc → EthDmaDesc) (tab : DescTab)
    (i : Nat) : initChain count entry tab i = if i < count then entry i (tab i) else tab i := by
  induction count with
  | zero => simp [initChain]
  | succ count ih =>
    rw [initChain_succ]
    by_cases last : i = count
    · subst last
      simp [ih]
    · rw [Function.update_of_ne last, ih]
      by_cases before : i < count
      · simp [before, Nat.lt_succ_of_lt before]
      · simp [before, show ¬ i < count + 1 by omega]

end WchLwip
