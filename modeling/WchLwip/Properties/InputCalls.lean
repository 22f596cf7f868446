import WchLwip.Properties.ReceiveLength

/-! Which frames reach `netif->input`.

`ETH_RxPkt_ChainMode` reports an error as a frame of length zero, which nothing
tells from an empty frame: `pbuf_alloc` is asked for zero bytes, and what it
returns is passed on. -/
namespace WchLwip

open Mask

/-- A good frame is passed on once and nothing else is; the buffers of a chain that is not
passed on, or refused, are back in the pool. -/
structure InputExact (lwip : Lwip) (netifInput : List (List UInt8) → ErrT) (dmasr : Word) (rx : Rx)
    (free : Nat) : Prop where
  good : isSet rx.toGet.status ethDmaRxDescOwn = false → wholeFrame rx.toGet.status = true →
    4 < frameLength rx.toGet.status →
      lwip.pbufAlloc (frameLength rx.toGet.status - 4) free ≠ none →
        (ethernetifInput lwip netifInput dmasr rx free).2.2.2.length = 1
  bad : isSet rx.toGet.status ethDmaRxDescOwn = true ∨ wholeFrame rx.toGet.status = false ∨
    lwip.pbufAlloc (inputLen (ethRxPkt dmasr rx).2.2) free = none →
      (ethernetifInput lwip netifInput dmasr rx free).2.2.2 = []
  pool : (∀ p ∈ (ethernetifInput lwip netifInput dmasr rx free).2.2.2, netifInput p ≠ errOk) →
    (ethernetifInput lwip netifInput dmasr rx free).2.2.1 = free

section Calls

variable {lwip : Lwip} {netifInput : List (List UInt8) → ErrT} {dmasr : Word} {rx : Rx}
  {free : Nat}

/-- `netif->input` is called exactly when `pbuf_alloc` returned a chain. -/
theorem input_called_iff : (ethernetifInput lwip netifInput dmasr rx free).2.2.2 ≠ [] ↔
    lwip.pbufAlloc (inputLen (ethRxPkt dmasr rx).2.2) free ≠ none := by
  cases answer : lwip.pbufAlloc (inputLen (ethRxPkt dmasr rx).2.2) free with
  | none => simp [ethernetifInput, lowLevelInput, lowLevelInputAddrs, answer]
  | some lens =>
    simp only [ethernetifInput, lowLevelInput, lowLevelInputAddrs, answer, Option.map_some]
    split <;> simp

theorem input_called_once :
    (ethernetifInput lwip netifInput dmasr rx free).2.2.2.length ≤ 1 := by
  rcases result : lowLevelInput (lwip.pbufAlloc · free) dmasr rx with ⟨dmasr', rx', _ | p⟩
  · simp [ethernetifInput_none netifInput result]
  · simp [ethernetifInput_some netifInput result]

theorem fillAddrs_length (frame : FrameTypeDef) (lens : List Nat) :
    (frame.fillAddrs lens).length = lens.length := by
  cases there : frame.buffer with
  | none => simp only [FrameTypeDef.fillAddrs, there, List.length_map]
  | some buffer =>
    have filled := congrArg List.length (WchLwip.fillAddrs_lengths buffer lens)
    simpa only [FrameTypeDef.fillAddrs, there, List.length_map] using filled

/-- The chain came out of the free buffers, so freeing it makes the pool whole. -/
theorem input_pool_kept (pooled : lwip.Pooled)
    (refused : ∀ p ∈ (ethernetifInput lwip netifInput dmasr rx free).2.2.2, netifInput p ≠ errOk) :
    (ethernetifInput lwip netifInput dmasr rx free).2.2.1 = free := by
  cases answer : lwip.pbufAlloc (inputLen (ethRxPkt dmasr rx).2.2) free with
  | none => simp [ethernetifInput, lowLevelInput, lowLevelInputAddrs, answer]
  | some lens =>
    have taken := pooled.taken _ _ _ answer
    have result : ∃ dmasr' rx' p,
        lowLevelInput (lwip.pbufAlloc · free) dmasr rx = (dmasr', rx', some p) ∧
          p.length = lens.length := by
      simp [lowLevelInput, lowLevelInputAddrs, answer, fillAddrs_length]
    obtain ⟨dmasr', rx', p, received, count⟩ := result
    rw [ethernetifInput_some netifInput received] at refused ⊢
    have error : netifInput p ≠ errOk := refused p (by simp)
    simp only [error, if_false]
    omega

end Calls

/-- For every pool, descriptor and result of `netif->input`, the calls are exact when the
descriptor holds a whole frame for the CPU, or when the pool has no chain for zero bytes. -/
theorem input_exact_exactly_when_readable (lwip : Lwip) (pooled : lwip.Pooled)
    (netifInput : List (List UInt8) → ErrT) (dmasr : Word) (rx : Rx) (free : Nat) :
    InputExact lwip netifInput dmasr rx free ↔
      (isSet rx.toGet.status ethDmaRxDescOwn = false ∧ wholeFrame rx.toGet.status = true) ∨
        lwip.pbufAlloc 0 free = none := by
  rw [← rx.readable_iff]
  constructor
  · intro exact
    cases readable : rx.readable with
    | true => exact Or.inl rfl
    | false =>
      -- an error is asked for as a frame of length zero
      right
      have asked := (ethRxPkt_unreadable dmasr readable).2
      have broken : isSet rx.toGet.status ethDmaRxDescOwn = true ∨
          wholeFrame rx.toGet.status = false := by
        by_contra good
        rw [not_or, Bool.not_eq_true, Bool.not_eq_false] at good
        exact Bool.false_ne_true (readable.symm.trans (rx.readable_iff.mpr good))
      have quiet := exact.bad (broken.imp_right Or.inl)
      by_contra chain
      rw [← asked] at chain
      exact input_called_iff.mpr chain quiet
  · intro condition
    refine ⟨fun cpu whole data held => ?_, fun broken => ?_, input_pool_kept pooled⟩
    · have asked := (ethRxPkt_readable dmasr (rx.readable_iff.mpr ⟨cpu, whole⟩)).2
      rw [← dataLen_of_crc (Nat.le_of_lt data), ← asked] at held
      have called : (ethernetifInput lwip netifInput dmasr rx free).2.2.2 ≠ [] :=
        input_called_iff.mpr held
      exact Nat.le_antisymm input_called_once (List.length_pos_of_ne_nil called)
    · by_contra called
      have held := input_called_iff.mp called
      cases readable : rx.readable with
      | true =>
        obtain ⟨cpu, whole⟩ := rx.readable_iff.mp readable
        rw [cpu, whole] at broken
        simp [held] at broken
      | false =>
        rw [(ethRxPkt_unreadable dmasr readable).2] at held
        rcases condition with good | empty
        · exact Bool.false_ne_true (readable.symm.trans good)
        · exact held empty

theorem input_exact_exactly_when_readable_runt :
    InputExact Lwip.pool (fun _ => errOk) 0 runtRing 8 ↔
      (isSet runtRing.toGet.status ethDmaRxDescOwn = false ∧
        wholeFrame runtRing.toGet.status = true) ∨ Lwip.pool.pbufAlloc 0 8 = none :=
  input_exact_exactly_when_readable Lwip.pool Lwip.pool_pooled (fun _ => errOk) 0 runtRing 8

/-- The DMA closes a descriptor with an error, and an empty chain is passed on. -/
theorem error_frame_passed_on : ∃ rx,
    (ethDmaRxDescChainInit (fun _ => ⟨0, 0, 0, 0⟩) (fun _ => 0) ethRxBufNb).dmaClose 0x00408300 =
      some rx ∧
    ¬ InputExact Lwip.pool (fun _ => errOk) 0 rx 8 := by
  have reached : ((ethDmaRxDescChainInit (fun _ => ⟨0, 0, 0, 0⟩) (fun _ => 0)
      ethRxBufNb).dmaClose 0x00408300).any (fun rx => !wholeFrame rx.toGet.status &&
        (ethernetifInput Lwip.pool (fun _ => errOk) 0 rx 8).2.2.2 == [[[]]]) = true := by
    decide +kernel
  obtain ⟨rx, closed, found⟩ := (Option.any_eq_true ..).mp reached
  rw [Bool.and_eq_true, Bool.not_eq_true', beq_iff_eq] at found
  obtain ⟨broken, called⟩ := found
  refine ⟨rx, closed, fun exact => ?_⟩
  have quiet := exact.bad (Or.inr (Or.inl broken))
  rw [called] at quiet
  cases quiet

end WchLwip
