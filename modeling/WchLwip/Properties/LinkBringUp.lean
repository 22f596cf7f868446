import WchLwip.Library.Trace
import WchLwip.Model.InitPhy

/-! What `init_phy` has seen of the PHY when it starts the DMA.

The four waits are written with `if`, so each of them polls once, decrements a
counter that starts at ten or more, and goes on whatever the poll has shown. -/
namespace WchLwip

open Mask Trace

/-! ### The waits -/

/-- The reset of the MAC is requested. -/
def softResetRequested : PhyAction → Bool
  | .writeDmabmr value => isSet value ethDmabmrSr
  | _ => false

/-- A condition to be waited for, and the report of its timeout. -/
structure PhyWait where
  observed : PhyAction → Bool
  report : String

def softReset : PhyWait where
  observed
    | .readDmabmr value => !isSet value ethDmabmrSr
    | _ => false
  report := softResetTimeout

/-- The condition holds of the value that a read of the register returned. -/
def phyShows (phyReg : Nat) (condition : BitVec 16 → Bool) : PhyAction → Bool
  | .readPhyRegister reg value => reg == phyReg && condition value
  | _ => false

def phyResetDone : PhyWait where
  observed := phyShows phyBcr fun value => !isSet value phyReset
  report := phyResetTimeout

def phyLinked : PhyWait where
  observed := phyShows phyBsr fun value => isSet value phyLinkedStatus
  report := linkTimeout

def phyNegotiated : PhyWait where
  observed := phyShows phyBsr fun value => isSet value phyAutoNegoComplete
  report := autoNegoTimeout

def phyWaits : List PhyWait := [softReset, phyResetDone, phyLinked, phyNegotiated]

/-- The reset was requested, and these waits then ended with their condition, in this order. -/
def observedAll (waits : List PhyWait) (trace : List PhyAction) : Bool :=
  inOrder (softResetRequested :: waits.map PhyWait.observed) trace

/-- The actions that have to wait. -/
def PhyAction.proceeds : PhyAction → Bool
  | .readPhyRegister reg _ => reg == 0x10
  | .writeMaccr _ => true
  | .ethStart => true
  | _ => false

/-- The duplex status is read, the MAC programmed and the DMA started after the four
conditions were observed, and the first condition that is not observed is reported. -/
structure WaitsForPhy (trace : List PhyAction) : Prop where
  ordered : ∀ before action after, trace = before ++ action :: after → action.proceeds = true →
    observedAll phyWaits before = true
  reported : ∀ k wait, phyWaits[k]? = some wait → observedAll (phyWaits.take k) trace = true →
    observedAll (phyWaits.take (k + 1)) trace = true ∨ .printf wait.report ∈ trace

/-- Each of the four polls shows its condition. -/
structure PhyReady (reads : PhyReads) : Prop where
  softReset : isSet (reads.dmabmr 1) ethDmabmrSr = false
  phyReset : isSet (reads.phyBcr 0) phyReset = false
  linked : isSet (reads.phyBsr 0) phyLinkedStatus = true
  negotiated : isSet (reads.phyBsr 1) phyAutoNegoComplete = true

/-! ### One poll for each wait -/

/-- The delay of a wait whose condition is pending. -/
def phyDelay (pending : Bool) (ms : Nat) : List PhyAction :=
  if pending then [.vTaskDelay ms] else []

theorem mem_phyDelay {pending : Bool} {ms : Nat} {action : PhyAction}
    (member : action ∈ phyDelay pending ms) : action = .vTaskDelay ms := by
  cases pending with
  | true => exact List.mem_singleton.mp member
  | false => cases member

/-- The counter does not run out in one poll. -/
theorem waitFor_once {timeout : Word} {expired : Word → Bool} {message : String} {blocks : Bool}
    {ms : Nat} (pending : Bool) (rest : List PhyAction) (first : expired (timeout - 1) = false) :
    waitFor timeout expired message blocks ms pending rest = phyDelay pending ms ++ rest := by
  cases pending with
  | true => simp only [waitFor, first, phyDelay, if_true, if_false, Bool.false_eq_true,
      List.singleton_append]
  | false => rfl

/-- Everything before the read of the duplex status. -/
def phyPolls (reads : PhyReads) : List PhyAction :=
  .readDmabmr (reads.dmabmr 0) :: .writeDmabmr (reads.dmabmr 0 ||| ethDmabmrSr) ::
  .readDmabmr (reads.dmabmr 1) ::
  (phyDelay (isSet (reads.dmabmr 1) ethDmabmrSr) 100 ++
    .writePhyRegister phyBcr phyReset :: .vTaskDelay 100 ::
    .readPhyRegister phyBcr (reads.phyBcr 0) ::
    (phyDelay (isSet (reads.phyBcr 0) phyReset) 1000 ++
      .readPhyRegister phyBsr (reads.phyBsr 0) ::
      (phyDelay (!isSet (reads.phyBsr 0) phyLinkedStatus) 1000 ++
        .readPhyRegister phyBsr (reads.phyBsr 1) ::
        phyDelay (!isSet (reads.phyBsr 1) phyAutoNegoComplete) 1000)))

theorem initPhy_eq (reads : PhyReads) : initPhy reads = phyPolls reads ++ startMac reads := by
  unfold initPhy waitSoftReset waitPhyReset waitLink waitAutoNego
  rw [waitFor_once _ _ (by decide), waitFor_once _ _ (by decide), waitFor_once _ _ (by decide),
    waitFor_once _ _ (by decide)]
  simp only [phyPolls, List.cons_append, List.append_assoc]

/-- The polls neither go on nor report. -/
theorem mem_phyPolls {reads : PhyReads} {action : PhyAction} (member : action ∈ phyPolls reads) :
    action.proceeds = false ∧ ∀ text, action ≠ .printf text := by
  simp only [phyPolls, List.mem_append, List.mem_cons] at member
  rcases member with
    rfl | rfl | rfl | delay | rfl | rfl | rfl | delay | rfl | delay | rfl | delay
  all_goals first
    | exact ⟨rfl, fun _ same => by cases same⟩
    | rw [mem_phyDelay delay]
      exact ⟨rfl, fun _ same => by cases same⟩

/-- What is printed after the waits is no report of a timeout. -/
theorem startMac_reports {reads : PhyReads} {wait : PhyWait} (one : wait ∈ phyWaits) :
    PhyAction.printf wait.report ∉ startMac reads := by
  have reports : wait.report ∈ phyWaits.map PhyWait.report := List.mem_map_of_mem one
  have other : ∀ text ∈ phyWaits.map PhyWait.report, text ≠ "PHY_SR value:%04x. \r\n" ∧
      text ≠ "Full Duplex. \r\n" ∧ text ≠ "Half Duplex. \r\n" ∧ text ≠ "Loopback_10M \r\n" := by
    decide
  obtain ⟨value, full, half, loopback⟩ := other _ reports
  intro member
  simp only [startMac, List.mem_append, List.mem_cons, List.not_mem_nil, or_false,
    reduceCtorEq, false_or, PhyAction.printf.injEq] at member
  rcases member with printed | duplex | looped
  · exact value printed
  · split at duplex
    · exact full duplex
    · exact half duplex
  · split at looped
    · exact loopback (by simpa using looped)
    · cases looped

/-- A poll that does not show its condition leaves nothing behind that does. -/
theorem observedAll_phyPolls (reads : PhyReads) :
    observedAll phyWaits (phyPolls reads) =
      (!isSet (reads.dmabmr 1) ethDmabmrSr && !isSet (reads.phyBcr 0) phyReset &&
        isSet (reads.phyBsr 0) phyLinkedStatus && isSet (reads.phyBsr 1) phyAutoNegoComplete) := by
  have requested : isSet (reads.dmabmr 0 ||| ethDmabmrSr) ethDmabmrSr = true :=
    isSet_or_self _ _ (by decide)
  cases soft : isSet (reads.dmabmr 1) ethDmabmrSr <;>
    cases reset : isSet (reads.phyBcr 0) phyReset <;>
    cases link : isSet (reads.phyBsr 0) phyLinkedStatus <;>
    cases nego : isSet (reads.phyBsr 1) phyAutoNegoComplete <;>
    simp [observedAll, phyWaits, phyPolls, phyDelay, inOrder, softResetRequested, requested, softReset,
      phyResetDone, phyLinked, phyNegotiated, phyShows, phyBcr, phyBsr, soft, reset, link, nego]

theorem phyReady_iff (reads : PhyReads) :
    PhyReady reads ↔ observedAll phyWaits (phyPolls reads) = true := by
  rw [observedAll_phyPolls]
  simp only [Bool.and_eq_true, Bool.not_eq_true', and_assoc]
  constructor
  · rintro ⟨soft, reset, link, nego⟩
    exact ⟨soft, reset, link, nego⟩
  · rintro ⟨soft, reset, link, nego⟩
    exact ⟨soft, reset, link, nego⟩

/-- The duplex status is read right after the polls, whatever they have shown. -/
theorem duplex_after_polls {reads : PhyReads} (waits : WaitsForPhy (initPhy reads)) :
    observedAll phyWaits (phyPolls reads) = true := by
  obtain ⟨after, started⟩ : ∃ after, startMac reads = .readPhyRegister 0x10 reads.phySr :: after :=
    ⟨_, rfl⟩
  refine waits.ordered _ (.readPhyRegister 0x10 reads.phySr) after ?_ rfl
  rw [initPhy_eq, started]

/-- No timeout is ever reported. -/
theorem initPhy_silent (reads : PhyReads) (wait : PhyWait) (one : wait ∈ phyWaits) :
    PhyAction.printf wait.report ∉ initPhy reads := by
  rw [initPhy_eq, List.mem_append]
  rintro (polled | started)
  · exact (mem_phyPolls polled).2 _ rfl
  · exact startMac_reports one started

/-- `init_phy` waits for the PHY exactly when each of its four polls shows its condition, and
none of its timeout reports can be reached. -/
theorem link_bring_up_waits_exactly_when_ready (reads : PhyReads) :
    (WaitsForPhy (initPhy reads) ↔ PhyReady reads) ∧
    ∀ wait ∈ phyWaits, PhyAction.printf wait.report ∉ initPhy reads := by
  refine ⟨⟨fun waits => ?_, fun ready => ?_⟩, initPhy_silent reads⟩
  · rw [phyReady_iff]
    exact duplex_after_polls waits
  · have observed := (phyReady_iff reads).mp ready
    constructor
    · intro before action after split proceeds
      rw [initPhy_eq] at split
      obtain ⟨between, rfl⟩ :=
        prefix_before (fun a member => (mem_phyPolls member).1) proceeds split
      exact inOrder_append between observed
    · intro k wait _ _
      left
      rw [initPhy_eq]
      apply inOrder_append
      -- the first `k + 1` of the four waits
      have all : inOrder ((softResetRequested :: (phyWaits.take (k + 1)).map PhyWait.observed) ++
          (phyWaits.drop (k + 1)).map PhyWait.observed) (phyPolls reads) = true := by
        rw [List.cons_append, ← List.map_append, List.take_append_drop]
        exact observed
      exact inOrder_left all

/-- The PHY never shows a link and never completes the auto-negotiation; the resets are done at
once. -/
def noLink : PhyReads where
  dmabmr _ := 0
  phyBcr _ := 0
  phyBsr _ := 0
  phySr := 0
  maccr _ := 0

/-- Neither a link nor a timeout is seen, and the MAC is set to half duplex and the DMA started. -/
theorem started_without_link :
    (∀ action ∈ initPhy noLink, phyLinked.observed action = false ∧
      phyNegotiated.observed action = false) ∧
    PhyAction.printf linkTimeout ∉ initPhy noLink ∧
    PhyAction.writeMaccr 0x00000600 ∈ initPhy noLink ∧ PhyAction.ethStart ∈ initPhy noLink ∧
    ¬ WaitsForPhy (initPhy noLink) := by
  refine ⟨by decide, by decide, by decide, by decide, fun waits => ?_⟩
  exact absurd (duplex_after_polls waits) (by decide)

end WchLwip
