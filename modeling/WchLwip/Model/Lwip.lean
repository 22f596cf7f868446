import WchLwip.Model.Driver

/-! What the driver uses of lwIP: the pool of pbufs, and the options that size it.

lwIP itself is not part of the repository. Its macros and `pbuf_alloc` are members of `Lwip`,
and what is relied on is stated about them. -/
namespace WchLwip

/-! ### `lwipopts.h` -/

def memAlignment : Nat := 4

def pbufPoolSize : Nat := 8

def tcpMss : Nat := 1460

/-- `LWIP_MEM_ALIGN_SIZE`, `PBUF_LINK_ENCAPSULATION_HLEN`, `PBUF_LINK_HLEN`, and what
`pbuf_alloc(PBUF_RAW, len, PBUF_POOL)` returns when `free` buffers of the pool are left: `NULL`,
or the lengths of the pbufs of a chain. -/
structure Lwip where
  memAlignSize : Nat → Nat
  pbufLinkEncapsulationHlen : Nat
  pbufLinkHlen : Nat
  pbufAlloc (len free : Nat) : Option (List Nat)

/-- `PBUF_POOL_BUFSIZE` -/
def Lwip.pbufPoolBufsize (lwip : Lwip) : Nat :=
  lwip.memAlignSize (tcpMss + 40 + lwip.pbufLinkEncapsulationHlen + lwip.pbufLinkHlen)

/-! ### What lwIP documents -/

/-- A chain has the length that was asked for, and its pbufs are taken from the pool. -/
structure Lwip.Pooled (lwip : Lwip) : Prop where
  returns : ∀ len free, pbufAllocReturns len (lwip.pbufAlloc len free) = true
  taken : ∀ len free lens, lwip.pbufAlloc len free = some lens → lens.length ≤ free

/-- Sizes are rounded up to the alignment, there is no encapsulation, and the link header is an
Ethernet header without padding; a chain fits into the free buffers. -/
structure Lwip.Sized (lwip : Lwip) : Prop where
  aligned : ∀ size, lwip.memAlignSize size < size + memAlignment
  encapsulation : lwip.pbufLinkEncapsulationHlen = 0
  link : lwip.pbufLinkHlen = 14
  fits : ∀ len free lens, lwip.pbufAlloc len free = some lens → len ≤ free * lwip.pbufPoolBufsize

end WchLwip
