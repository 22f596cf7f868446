import WchLwip.Library.WordMemory

/-! Straight-line code of a 32 bit RISC-V hart.

`saves` and `restores` are the blocks that keep registers in a frame: what one of
them does is said once, for any table of registers and slots. -/
namespace Rv32

abbrev Word := BitVec 32

/-- `x0` to `x31` -/
abbrev Reg := Fin 32

scoped instance instNeZeroReg : NeZero 32 := ⟨by decide⟩

/-- The control and status registers are known by their numbers. -/
structure State where
  x : Reg → Word
  csr : Nat → Word
  pc : Word
  mem : Nat → UInt8

namespace State

/-- `x0` reads as zero. -/
def get (s : State) (r : Reg) : Word := if r = 0 then 0 else s.x r

def set (s : State) (r : Reg) (w : Word) : State := { s with x := Function.update s.x r w }

def setCsr (s : State) (c : Nat) (w : Word) : State := { s with csr := Function.update s.csr c w }

def setMem (s : State) (m : Nat → UInt8) : State := { s with mem := m }

end State

/-- `lwSymbol` is the load of a variable, which the assembler makes of two instructions. -/
inductive Instr where
  | addi (rd rs : Reg) (imm : Word)
  | andi (rd rs : Reg) (imm : Word)
  | slli (rd rs : Reg) (shamt : Nat)
  | or (rd rs₁ rs₂ : Reg)
  | lw (rd : Reg) (offset : Word) (rs : Reg)
  | sw (rs₂ : Reg) (offset : Word) (rs₁ : Reg)
  | lwSymbol (rd : Reg) (address : Word)
  | csrr (rd : Reg) (c : Nat)
  | csrw (c : Nat) (rs : Reg)
  | csrs (c : Nat) (rs : Reg)
deriving DecidableEq

def exec (s : State) : Instr → State
  | .addi rd rs imm => s.set rd (s.get rs + imm)
  | .andi rd rs imm => s.set rd (s.get rs &&& imm)
  | .slli rd rs shamt => s.set rd (s.get rs <<< shamt)
  | .or rd rs₁ rs₂ => s.set rd (s.get rs₁ ||| s.get rs₂)
  | .lw rd offset rs => s.set rd (WordMemory.load s.mem (s.get rs + offset).toNat)
  | .sw rs₂ offset rs₁ =>
    s.setMem (WordMemory.store s.mem (s.get rs₁ + offset).toNat (s.get rs₂))
  | .lwSymbol rd address => s.set rd (WordMemory.load s.mem address.toNat)
  | .csrr rd c => s.set rd (s.csr c)
  | .csrw c rs => s.setCsr c (s.get rs)
  | .csrs c rs => s.setCsr c (s.csr c ||| s.get rs)

def execAll (s : State) (code : List Instr) : State := code.foldl exec s

variable {s : State} {r r' : Reg} {w : Word}

@[simp] theorem execAll_nil (s : State) : execAll s [] = s := rfl

@[simp] theorem execAll_cons (s : State) (i : Instr) (code : List Instr) :
    execAll s (i :: code) = execAll (exec s i) code := rfl

theorem execAll_append (s : State) (code rest : List Instr) :
    execAll s (code ++ rest) = execAll (execAll s code) rest :=
  List.foldl_append

theorem get_eq (nonzero : r ≠ 0) : s.get r = s.x r := if_neg nonzero

theorem set_x_self (s : State) (r : Reg) (w : Word) : (s.set r w).x r = w :=
  Function.update_self _ _ _

theorem set_x_ne (different : r' ≠ r) : (s.set r w).x r' = s.x r' :=
  Function.update_of_ne different _ _

theorem get_set_self (nonzero : r ≠ 0) : (s.set r w).get r = w := by
  rw [get_eq nonzero, set_x_self]

theorem get_set_ne (different : r' ≠ r) : (s.set r w).get r' = s.get r' := by
  rw [State.get, State.get, set_x_ne different]

@[simp] theorem get_zero (s : State) : s.get 0 = 0 := rfl

@[simp] theorem setMem_get (s : State) (m : Nat → UInt8) (r : Reg) :
    (s.setMem m).get r = s.get r := rfl

@[simp] theorem setMem_mem (s : State) (m : Nat → UInt8) : (s.setMem m).mem = m := rfl

/-! ### Frames -/

/-- Registers, and the words of a frame where they are kept. -/
abbrev Table := List (Reg × Nat)

/-- The offset of a word of a frame -/
def slot (k : Nat) : Word := BitVec.ofNat 32 (4 * k)

def saves (base : Reg) (table : Table) : List Instr :=
  table.map fun entry => .sw entry.1 (slot entry.2) base

def restores (base : Reg) (table : Table) : List Instr :=
  table.map fun entry => .lw entry.1 (slot entry.2) base

/-- The words of the frame do not wrap around. -/
def Fits (w : Word) (table : Table) : Prop := ∀ entry ∈ table, w.toNat + 4 * entry.2 + 4 ≤ 2 ^ 32

theorem toNat_add_slot {k : Nat} (fits : w.toNat + 4 * k + 4 ≤ 2 ^ 32) :
    (w + slot k).toNat = w.toNat + 4 * k := by
  have offset : (slot k).toNat = 4 * k := by
    rw [slot, BitVec.toNat_ofNat, Nat.mod_eq_of_lt (by omega)]
  rw [BitVec.toNat_add, offset, Nat.mod_eq_of_lt (by omega)]

/-- The address is in none of the words of the table. -/
def OffTable (base : Nat) (table : Table) (a : Nat) : Prop :=
  ∀ entry ∈ table, a < base + 4 * entry.2 ∨ base + 4 * entry.2 + 4 ≤ a

/-- The words of the frame are stored, and nothing else changes. -/
theorem execAll_saves {base : Reg} {table : Table} (fits : Fits (s.get base) table)
    (slots : (table.map Prod.snd).Nodup) :
    ∃ mem', execAll s (saves base table) = s.setMem mem' ∧
      (∀ entry ∈ table, WordMemory.load mem' ((s.get base).toNat + 4 * entry.2) = s.get entry.1) ∧
      ∀ a, OffTable (s.get base).toNat table a → mem' a = s.mem a := by
  induction table generalizing s with
  | nil => exact ⟨s.mem, rfl, by simp, fun _ _ => rfl⟩
  | cons entry table ih =>
    obtain ⟨first, rest⟩ := List.forall_mem_cons.mp fits
    obtain ⟨absent, distinct⟩ := List.nodup_cons.mp slots
    have address := toNat_add_slot first
    obtain ⟨mem', done, stored, kept⟩ :=
      ih (s := exec s (.sw entry.1 (slot entry.2) base)) rest distinct
    -- the registers that are read are those of the start
    have same (r : Reg) : (exec s (.sw entry.1 (slot entry.2) base)).get r = s.get r := rfl
    simp only [same] at stored kept
    refine ⟨mem', done, List.forall_mem_cons.mpr ⟨?_, stored⟩, fun a off => ?_⟩
    · rw [← WordMemory.load_store s.mem ((s.get base).toNat + 4 * entry.2) (s.get entry.1)]
      refine WordMemory.load_congr fun a low high => (kept a fun other member => ?_).trans ?_
      · have different : other.2 ≠ entry.2 := by
          rintro equal
          exact absent (equal ▸ List.mem_map_of_mem member)
        omega
      · rw [exec, address, setMem_mem]
    · obtain ⟨here, others⟩ := List.forall_mem_cons.mp off
      refine (kept a others).trans (WordMemory.store_outside ?_)
      rw [address]
      exact here

/-- The registers of the table are loaded, and nothing else changes. -/
theorem execAll_restores {base : Reg} {table : Table} (fits : Fits (s.get base) table)
    (registers : (table.map Prod.fst).Nodup) (away : base ∉ table.map Prod.fst)
    (nonzero : (0 : Reg) ∉ table.map Prod.fst) :
    ∃ x', execAll s (restores base table) = { s with x := x' } ∧
      (∀ entry ∈ table, x' entry.1 = WordMemory.load s.mem ((s.get base).toNat + 4 * entry.2)) ∧
      ∀ r ∉ table.map Prod.fst, x' r = s.x r := by
  induction table generalizing s with
  | nil => exact ⟨s.x, rfl, by simp, fun _ _ => rfl⟩
  | cons entry table ih =>
    obtain ⟨first, rest⟩ := List.forall_mem_cons.mp fits
    rw [List.map_cons] at registers away nonzero
    obtain ⟨absent, distinct⟩ := List.nodup_cons.mp registers
    rw [List.mem_cons, not_or] at away nonzero
    have address := toNat_add_slot first
    have kept : (exec s (.lw entry.1 (slot entry.2) base)).get base = s.get base :=
      get_set_ne away.1
    obtain ⟨x', done, loaded, others⟩ := ih (s := exec s (.lw entry.1 (slot entry.2) base))
      (kept ▸ rest) distinct away.2 nonzero.2
    rw [kept] at loaded
    refine ⟨x', done, List.forall_mem_cons.mpr ⟨?_, loaded⟩, fun r outside => ?_⟩
    · rw [others _ absent, exec, set_x_self, address]
    · rw [List.map_cons, List.mem_cons, not_or] at outside
      rw [others r outside.2, exec, set_x_ne outside.1]

end Rv32
