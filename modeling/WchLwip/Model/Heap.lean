import WchLwip.Library.Lts
import WchLwip.Library.WordMemory
import WchLwip.Model.Descriptors

/-! `heap_4.c`, and the tasks that use it.

Memory is one array of bytes, in which `ucHeap` and `xStart` have their places. No other task
runs between `vTaskSuspendAll` and `xTaskResumeAll`, so what stands there is one step. -/
namespace WchLwip.Heap

open Mask

/-! ### Configuration -/

def configTotalHeapSize : Word := 32 * 1024

def portByteAlignment : Word := 16
def portByteAlignmentMask : Word := 0x000f

def portMaxDelay : Word := 0xffffffff

def null : Word := 0

/-- `sizeof(BlockLink_t)`, rounded up to the alignment -/
def xHeapStructSize : Word := (8 + (portByteAlignment - 1)) &&& ~~~portByteAlignmentMask

def heapMinimumBlockSize : Word := xHeapStructSize <<< 1

def heapSizeMax : Word := ~~~0

def heapMultiplyWillOverflow (a b : Word) : Bool := decide (a > 0) && decide (b > heapSizeMax / a)

def heapAddWillOverflow (a b : Word) : Bool := decide (a > heapSizeMax - b)

def heapBlockAllocatedBitmask : Word := 1 <<< (4 * 8 - 1)

def heapBlockSizeIsValid (xBlockSize : Word) : Bool := !isSet xBlockSize heapBlockAllocatedBitmask

/-- The places of the two static objects, as a linker may choose them. -/
structure Layout where
  ucHeap : Word
  xStart : Word
  nonnull : ucHeap ≠ null
  ucHeapEnd : ucHeap.toNat + configTotalHeapSize.toNat < 2 ^ 32
  xStartEnd : xStart.toNat + 8 < 2 ^ 32
  apart : xStart.toNat + 8 ≤ ucHeap.toNat ∨ ucHeap.toNat + configTotalHeapSize.toNat ≤ xStart.toNat

/-! ### `BlockLink_t` -/

/-- The memory and the static variables except `xStart`, which is in memory. -/
structure State where
  mem : Bytes
  pxEnd : Word
  xFreeBytesRemaining : Word
  xMinimumEverFreeBytesRemaining : Word
  xNumberOfSuccessfulAllocations : Word
  xNumberOfSuccessfulFrees : Word

namespace State

def pxNextFreeBlock (s : State) (pxBlock : Word) : Word := WordMemory.load s.mem pxBlock.toNat

def xBlockSize (s : State) (pxBlock : Word) : Word := WordMemory.load s.mem (pxBlock.toNat + 4)

def setNextFreeBlock (s : State) (pxBlock next : Word) : State :=
  { s with mem := WordMemory.store s.mem pxBlock.toNat next }

def setBlockSize (s : State) (pxBlock size : Word) : State :=
  { s with mem := WordMemory.store s.mem (pxBlock.toNat + 4) size }

def heapBlockIsAllocated (s : State) (pxBlock : Word) : Bool :=
  isSet (s.xBlockSize pxBlock) heapBlockAllocatedBitmask

def heapAllocateBlock (s : State) (pxBlock : Word) : State :=
  s.setBlockSize pxBlock (s.xBlockSize pxBlock ||| heapBlockAllocatedBitmask)

def heapFreeBlock (s : State) (pxBlock : Word) : State :=
  s.setBlockSize pxBlock (s.xBlockSize pxBlock &&& ~~~heapBlockAllocatedBitmask)

end State

/-! ### `prvInsertBlockIntoFreeList` -/

/-- The `for` loop: `pxIterator`. `none` when it takes more than `fuel` steps. -/
def insertPosition (s : State) (pxBlockToInsert : Word) : Nat → Word → Option Word
  | 0, _ => none
  | fuel + 1, pxIterator =>
    if s.pxNextFreeBlock pxIterator < pxBlockToInsert then
      insertPosition s pxBlockToInsert fuel (s.pxNextFreeBlock pxIterator)
    else some pxIterator

/-- The block is merged with the block behind it, or linked to it. -/
def linkNext (s : State) (pxIterator pxBlockToInsert : Word) : State :=
  if pxBlockToInsert + s.xBlockSize pxBlockToInsert = s.pxNextFreeBlock pxIterator then
    if s.pxNextFreeBlock pxIterator ≠ s.pxEnd then
      let s := s.setBlockSize pxBlockToInsert
        (s.xBlockSize pxBlockToInsert + s.xBlockSize (s.pxNextFreeBlock pxIterator))
      s.setNextFreeBlock pxBlockToInsert (s.pxNextFreeBlock (s.pxNextFreeBlock pxIterator))
    else s.setNextFreeBlock pxBlockToInsert s.pxEnd
  else s.setNextFreeBlock pxBlockToInsert (s.pxNextFreeBlock pxIterator)

/-- What follows the loop: the block is merged with the block in front of it, or linked. -/
def insertAfter (s : State) (pxIterator pxBlockToInsert : Word) : State :=
  if pxIterator + s.xBlockSize pxIterator = pxBlockToInsert then
    let s := s.setBlockSize pxIterator (s.xBlockSize pxIterator + s.xBlockSize pxBlockToInsert)
    -- `pxBlockToInsert = pxIterator`, so nothing is left to be linked to it
    linkNext s pxIterator pxIterator
  else
    let s := linkNext s pxIterator pxBlockToInsert
    if pxIterator ≠ pxBlockToInsert then s.setNextFreeBlock pxIterator pxBlockToInsert else s

def prvInsertBlockIntoFreeList (layout : Layout) (fuel : Nat) (s : State)
    (pxBlockToInsert : Word) : Option State :=
  (insertPosition s pxBlockToInsert fuel layout.xStart).map fun pxIterator =>
    insertAfter s pxIterator pxBlockToInsert

/-! ### `prvHeapInit` -/

def Layout.pucAlignedHeap (layout : Layout) : Word :=
  if isSet layout.ucHeap portByteAlignmentMask then
    (layout.ucHeap + (portByteAlignment - 1)) &&& ~~~portByteAlignmentMask
  else layout.ucHeap

/-- Nothing is subtracted where the heap is aligned. -/
def Layout.xTotalHeapSize (layout : Layout) : Word :=
  configTotalHeapSize - (layout.pucAlignedHeap - layout.ucHeap)

/-- The value of `pxEnd` -/
def Layout.endAddress (layout : Layout) : Word :=
  (layout.pucAlignedHeap + layout.xTotalHeapSize - xHeapStructSize) &&& ~~~portByteAlignmentMask

def prvHeapInit (layout : Layout) (s : State) : State :=
  let s := s.setNextFreeBlock layout.xStart layout.pucAlignedHeap
  let s := s.setBlockSize layout.xStart 0
  let pxEnd := layout.endAddress
  let s := s.setBlockSize pxEnd 0
  let s := s.setNextFreeBlock pxEnd null
  let pxFirstFreeBlock := layout.pucAlignedHeap
  let s := s.setBlockSize pxFirstFreeBlock (pxEnd - pxFirstFreeBlock)
  let s := s.setNextFreeBlock pxFirstFreeBlock pxEnd
  { s with
    pxEnd := pxEnd
    xMinimumEverFreeBytesRemaining := s.xBlockSize pxFirstFreeBlock
    xFreeBytesRemaining := s.xBlockSize pxFirstFreeBlock }

/-! ### `pvPortMalloc` -/

/-- `xWantedSize` with the header and the alignment, or 0 -/
def blockSizeFor (xWantedSize : Word) : Word :=
  if xWantedSize > 0 then
    let xAdditionalRequiredSize :=
      xHeapStructSize + portByteAlignment - (xWantedSize &&& portByteAlignmentMask)
    if heapAddWillOverflow xWantedSize xAdditionalRequiredSize then 0
    else xWantedSize + xAdditionalRequiredSize
  else xWantedSize

/-- The `while` loop: `pxPreviousBlock` and `pxBlock`. -/
def searchFreeList (s : State) (xWantedSize : Word) : Nat → Word → Word → Option (Word × Word)
  | 0, _, _ => none
  | fuel + 1, pxPreviousBlock, pxBlock =>
    if s.xBlockSize pxBlock < xWantedSize ∧ s.pxNextFreeBlock pxBlock ≠ null then
      searchFreeList s xWantedSize fuel pxBlock (s.pxNextFreeBlock pxBlock)
    else some (pxPreviousBlock, pxBlock)

/-- The block is taken out of the list, and split when it is larger than required. -/
def unlinkBlock (layout : Layout) (fuel : Nat) (s : State)
    (xWantedSize pxPreviousBlock pxBlock : Word) : Option State :=
  let s := s.setNextFreeBlock pxPreviousBlock (s.pxNextFreeBlock pxBlock)
  if s.xBlockSize pxBlock - xWantedSize > heapMinimumBlockSize then
    let pxNewBlockLink := pxBlock + xWantedSize
    let s := s.setBlockSize pxNewBlockLink (s.xBlockSize pxBlock - xWantedSize)
    let s := s.setBlockSize pxBlock xWantedSize
    prvInsertBlockIntoFreeList layout fuel s pxNewBlockLink
  else some s

/-- The bookkeeping for a block that is returned. -/
def State.handOut (s : State) (pxBlock : Word) : State :=
  let xFreeBytesRemaining := s.xFreeBytesRemaining - s.xBlockSize pxBlock
  let s := { s with
    xFreeBytesRemaining := xFreeBytesRemaining
    xMinimumEverFreeBytesRemaining :=
      if xFreeBytesRemaining < s.xMinimumEverFreeBytesRemaining then xFreeBytesRemaining
      else s.xMinimumEverFreeBytesRemaining }
  let s := (s.heapAllocateBlock pxBlock).setNextFreeBlock pxBlock null
  { s with xNumberOfSuccessfulAllocations := s.xNumberOfSuccessfulAllocations + 1 }

/-- The pointer that is returned, and the state. -/
def pvPortMalloc (layout : Layout) (fuel : Nat) (xWantedSize : Word) (s : State) :
    Option (Word × State) :=
  let s := if s.pxEnd = null then prvHeapInit layout s else s
  let xWantedSize := blockSizeFor xWantedSize
  if heapBlockSizeIsValid xWantedSize then
    if xWantedSize > 0 ∧ xWantedSize ≤ s.xFreeBytesRemaining then
      (searchFreeList s xWantedSize fuel layout.xStart (s.pxNextFreeBlock layout.xStart)).bind
        fun (pxPreviousBlock, pxBlock) =>
          if pxBlock ≠ s.pxEnd then
            let pvReturn := s.pxNextFreeBlock pxPreviousBlock + xHeapStructSize
            (unlinkBlock layout fuel s xWantedSize pxPreviousBlock pxBlock).map fun s =>
              (pvReturn, s.handOut pxBlock)
          else some (null, s)
    else some (null, s)
  else some (null, s)

/-! ### `vPortFree` -/

/-- Up to `vTaskSuspendAll`; `none` when the block is not in use, so that nothing is done. -/
def freeMark (pv : Word) (s : State) : Option State :=
  let pxLink := pv - xHeapStructSize
  if s.heapBlockIsAllocated pxLink then
    if s.pxNextFreeBlock pxLink = null then some (s.heapFreeBlock pxLink) else none
  else none

/-- From `vTaskSuspendAll` on. -/
def freeInsert (layout : Layout) (fuel : Nat) (pv : Word) (s : State) : Option State :=
  let pxLink := pv - xHeapStructSize
  let s := { s with xFreeBytesRemaining := s.xFreeBytesRemaining + s.xBlockSize pxLink }
  (prvInsertBlockIntoFreeList layout fuel s pxLink).map fun s =>
    { s with xNumberOfSuccessfulFrees := s.xNumberOfSuccessfulFrees + 1 }

/-- The whole call, with no other task in between. -/
def vPortFree (layout : Layout) (fuel : Nat) (pv : Word) (s : State) : Option State :=
  if pv ≠ null then
    match freeMark pv s with
    | some s => freeInsert layout fuel pv s
    | none => some s
  else some s

/-! ### `pvPortCalloc` and `vPortGetHeapStats` -/

def pvPortCalloc (layout : Layout) (fuel : Nat) (xNum xSize : Word) (s : State) :
    Option (Word × State) :=
  if heapMultiplyWillOverflow xNum xSize then some (null, s)
  else
    (pvPortMalloc layout fuel (xNum * xSize) s).map fun (pv, s) =>
      if pv ≠ null then
        (pv, { s with
          mem := ByteMemory.write s.mem pv.toNat (List.replicate (xNum * xSize).toNat 0) })
      else (pv, s)

structure HeapStats where
  xAvailableHeapSpaceInBytes : Word
  xSizeOfLargestFreeBlockInBytes : Word
  xSizeOfSmallestFreeBlockInBytes : Word
  xNumberOfFreeBlocks : Word
  xMinimumEverFreeBytesRemaining : Word
  xNumberOfSuccessfulAllocations : Word
  xNumberOfSuccessfulFrees : Word
deriving DecidableEq

/-- The `while` loop: `xBlocks`, `xMaxSize` and `xMinSize`. -/
def walkFreeList (s : State) : Nat → Word → Word → Word → Word → Option (Word × Word × Word)
  | 0, _, _, _, _ => none
  | fuel + 1, pxBlock, xBlocks, xMaxSize, xMinSize =>
    if pxBlock ≠ s.pxEnd then
      let size := s.xBlockSize pxBlock
      walkFreeList s fuel (s.pxNextFreeBlock pxBlock) (xBlocks + 1)
        (if size > xMaxSize then size else xMaxSize) (if size < xMinSize then size else xMinSize)
    else some (xBlocks, xMaxSize, xMinSize)

/-- Other tasks may run between the walk, which sees `s`, and the counters, read from `t`. -/
def vPortGetHeapStats (layout : Layout) (fuel : Nat) (s t : State) : Option HeapStats :=
  let pxBlock := s.pxNextFreeBlock layout.xStart
  let walked :=
    if pxBlock ≠ null then walkFreeList s fuel pxBlock 0 0 portMaxDelay
    else some (0, 0, portMaxDelay)
  walked.map fun (xBlocks, xMaxSize, xMinSize) =>
    { xAvailableHeapSpaceInBytes := t.xFreeBytesRemaining
      xSizeOfLargestFreeBlockInBytes := xMaxSize
      xSizeOfSmallestFreeBlockInBytes := xMinSize
      xNumberOfFreeBlocks := xBlocks
      xMinimumEverFreeBytesRemaining := t.xMinimumEverFreeBytesRemaining
      xNumberOfSuccessfulAllocations := t.xNumberOfSuccessfulAllocations
      xNumberOfSuccessfulFrees := t.xNumberOfSuccessfulFrees }

/-! ### The tasks -/

/-- A pointer that a task holds, and the size that it asked for. -/
structure Allocation where
  pv : Word
  xWantedSize : Word
deriving DecidableEq

def Allocation.Contains (a : Allocation) (addr : Nat) : Prop :=
  a.pv.toNat ≤ addr ∧ addr < a.pv.toNat + a.xWantedSize.toNat

instance (a : Allocation) (addr : Nat) : Decidable (a.Contains addr) :=
  inferInstanceAs (Decidable (_ ∧ _))

/-- What the tasks hold, and the pointers that are in the middle of `vPortFree`. -/
structure Program where
  heap : State
  live : List Allocation
  freeing : List Word

/-- The calls of the tasks, and a byte that some code writes. -/
inductive Event where
  | malloc (xWantedSize : Word)
  | freeMark (pv : Word)
  | freeInsert (pv : Word)
  | store (addr : Nat) (byte : UInt8)
deriving DecidableEq

/-- The bytes of the two static objects -/
def Layout.Owns (layout : Layout) (addr : Nat) : Prop :=
  (layout.ucHeap.toNat ≤ addr ∧ addr < layout.ucHeap.toNat + configTotalHeapSize.toNat) ∨
    (layout.xStart.toNat ≤ addr ∧ addr < layout.xStart.toNat + 8)

instance (layout : Layout) (addr : Nat) : Decidable (layout.Owns addr) :=
  inferInstanceAs (Decidable (_ ∨ _))

/-- No loop takes as many steps as the heap has bytes. -/
def loopFuel : Nat := 2 ^ 15

/-- A task frees what it holds, once, and writes in what it holds or outside of the allocator. -/
def Program.step (layout : Layout) (p : Program) : Event → Option Program
  | .malloc xWantedSize =>
    (pvPortMalloc layout loopFuel xWantedSize p.heap).map fun (pv, heap) =>
      { p with
        heap := heap
        live := if pv = null then p.live else ⟨pv, xWantedSize⟩ :: p.live }
  | .freeMark pv =>
    if ∃ a ∈ p.live, a.pv = pv then
      let live := p.live.filter fun a => a.pv ≠ pv
      match Heap.freeMark pv p.heap with
      | some heap => some { heap := heap, live := live, freeing := pv :: p.freeing }
      | none => some { p with live := live }
    else none
  | .freeInsert pv =>
    if pv ∈ p.freeing then
      (Heap.freeInsert layout loopFuel pv p.heap).map fun heap =>
        { p with heap := heap, freeing := p.freeing.erase pv }
    else none
  | .store addr byte =>
    if (∃ a ∈ p.live, a.Contains addr) ∨ ¬ layout.Owns addr then
      some { p with heap := { p.heap with mem := Function.update p.heap.mem addr byte } }
    else none

def program (layout : Layout) : Lts Program Event := ⟨Program.step layout⟩

@[simp] theorem program_step (layout : Layout) (p : Program) (e : Event) :
    (program layout).step p e = p.step layout e := rfl

/-- After the start-up code: the static variables are zero. -/
def Program.boot (layout : Layout) (mem : Bytes) : Program where
  heap :=
    { mem := ByteMemory.write mem layout.xStart.toNat (List.replicate 8 0)
      pxEnd := null
      xFreeBytesRemaining := 0
      xMinimumEverFreeBytesRemaining := 0
      xNumberOfSuccessfulAllocations := 0
      xNumberOfSuccessfulFrees := 0 }
  live := []
  freeing := []

end WchLwip.Heap
