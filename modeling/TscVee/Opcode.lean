import TscVee.Evmc

/-!
# `TscVee.Opcode`: opcodes, gas costs and traits

The opcodes of `opcode.h` and the two tables of `instructions_traits.h`. A row of `gas_costs`
starts as a copy of the row before it and overrides some entries, so a row is a list of pairs in
which an earlier pair hides a later one. An opcode without an entry has the cost `undefined`.

The instruction names and the `since` column of the traits are read by no instruction and are
left out.
-/

set_option autoImplicit false

namespace TscVee

/-- An opcode byte. -/
abbrev Opcode := Byte

namespace Opcode

abbrev stop : Opcode := 0x00
abbrev add : Opcode := 0x01
abbrev mul : Opcode := 0x02
abbrev sub : Opcode := 0x03
abbrev div : Opcode := 0x04
abbrev sdiv : Opcode := 0x05
abbrev mod : Opcode := 0x06
abbrev smod : Opcode := 0x07
abbrev addmod : Opcode := 0x08
abbrev mulmod : Opcode := 0x09
abbrev exp : Opcode := 0x0a
abbrev signextend : Opcode := 0x0b
abbrev lt : Opcode := 0x10
abbrev gt : Opcode := 0x11
abbrev slt : Opcode := 0x12
abbrev sgt : Opcode := 0x13
abbrev eq : Opcode := 0x14
abbrev iszero : Opcode := 0x15
abbrev and : Opcode := 0x16
abbrev or : Opcode := 0x17
abbrev xor : Opcode := 0x18
abbrev not : Opcode := 0x19
abbrev byte : Opcode := 0x1a
abbrev shl : Opcode := 0x1b
abbrev shr : Opcode := 0x1c
abbrev sar : Opcode := 0x1d
abbrev keccak256 : Opcode := 0x20
abbrev address : Opcode := 0x30
abbrev balance : Opcode := 0x31
abbrev origin : Opcode := 0x32
abbrev caller : Opcode := 0x33
abbrev callvalue : Opcode := 0x34
abbrev calldataload : Opcode := 0x35
abbrev calldatasize : Opcode := 0x36
abbrev calldatacopy : Opcode := 0x37
abbrev codesize : Opcode := 0x38
abbrev codecopy : Opcode := 0x39
abbrev gasprice : Opcode := 0x3a
abbrev extcodesize : Opcode := 0x3b
abbrev extcodecopy : Opcode := 0x3c
abbrev returndatasize : Opcode := 0x3d
abbrev returndatacopy : Opcode := 0x3e
abbrev extcodehash : Opcode := 0x3f
abbrev blockhash : Opcode := 0x40
abbrev coinbase : Opcode := 0x41
abbrev timestamp : Opcode := 0x42
abbrev number : Opcode := 0x43
abbrev difficulty : Opcode := 0x44
abbrev gaslimit : Opcode := 0x45
abbrev chainid : Opcode := 0x46
abbrev selfbalance : Opcode := 0x47
abbrev basefee : Opcode := 0x48
abbrev pop : Opcode := 0x50
abbrev mload : Opcode := 0x51
abbrev mstore : Opcode := 0x52
abbrev mstore8 : Opcode := 0x53
abbrev sload : Opcode := 0x54
abbrev sstore : Opcode := 0x55
abbrev jump : Opcode := 0x56
abbrev jumpi : Opcode := 0x57
abbrev pc : Opcode := 0x58
abbrev msize : Opcode := 0x59
abbrev gas : Opcode := 0x5a
abbrev jumpdest : Opcode := 0x5b
abbrev push0 : Opcode := 0x5f
abbrev push1 : Opcode := 0x60
abbrev push8 : Opcode := 0x67
abbrev push9 : Opcode := 0x68
abbrev push32 : Opcode := 0x7f
abbrev dup1 : Opcode := 0x80
abbrev dup16 : Opcode := 0x8f
abbrev swap1 : Opcode := 0x90
abbrev swap16 : Opcode := 0x9f
abbrev log0 : Opcode := 0xa0
abbrev log1 : Opcode := 0xa1
abbrev log2 : Opcode := 0xa2
abbrev log3 : Opcode := 0xa3
abbrev log4 : Opcode := 0xa4
abbrev create : Opcode := 0xf0
abbrev call : Opcode := 0xf1
abbrev callcode : Opcode := 0xf2
abbrev return_ : Opcode := 0xf3
abbrev delegatecall : Opcode := 0xf4
abbrev create2 : Opcode := 0xf5
abbrev staticcall : Opcode := 0xfa
abbrev revert : Opcode := 0xfd
abbrev invalid : Opcode := 0xfe
abbrev selfdestruct : Opcode := 0xff

end Opcode

/-! ### Gas costs -/

/-- The special gas cost of an undefined instruction. -/
def undefined : Int := -1

/-- `COLD_SLOAD_COST`, for the first access to a storage slot. -/
def coldSloadCost : Int := 2100

/-- `COLD_ACCOUNT_ACCESS_COST`, for the first access to an account. -/
def coldAccountAccessCost : Int := 2600

/-- `WARM_STORAGE_READ_COST`, for the accesses after that. -/
def warmStorageReadCost : Int := 100

/-- What a cold account costs on top of a warm one, which the gas table charges. -/
def additionalColdAccountAccessCost : Int := coldAccountAccessCost - warmStorageReadCost

/-- A cost for each opcode from `first` on, `count` of them. -/
def costRange (first : Opcode) (count : Nat) (cost : Nat → Int) : List (Opcode × Int) :=
  (List.range count).map fun i => (first + BitVec.ofNat 8 i, cost i)

/-- `gas_costs[EVMC_FRONTIER]`. -/
def frontierCosts : List (Opcode × Int) :=
  ([(.stop, 0), (.add, 3), (.mul, 5), (.sub, 3), (.div, 5), (.sdiv, 5), (.mod, 5), (.smod, 5),
     (.addmod, 8), (.mulmod, 8), (.exp, 10), (.signextend, 5), (.lt, 3), (.gt, 3), (.slt, 3),
     (.sgt, 3), (.eq, 3), (.iszero, 3), (.and, 3), (.or, 3), (.xor, 3), (.not, 3), (.byte, 3),
     (.keccak256, 30), (.address, 2), (.balance, 20), (.origin, 2), (.caller, 2), (.callvalue, 2),
     (.calldataload, 3), (.calldatasize, 2), (.calldatacopy, 3), (.codesize, 2), (.codecopy, 3),
     (.gasprice, 2), (.extcodesize, 20), (.extcodecopy, 20), (.blockhash, 20), (.coinbase, 2),
     (.timestamp, 2), (.number, 2), (.difficulty, 2), (.gaslimit, 2), (.pop, 2), (.mload, 3),
     (.mstore, 3), (.sload, 50), (.sstore, 0), (.jump, 8), (.jumpi, 10), (.pc, 2), (.msize, 2),
     (.gas, 2), (.jumpdest, 1)] : List (Opcode × Int)) ++
  costRange .push1 32 (fun _ => 3) ++ costRange .dup1 16 (fun _ => 3) ++
  costRange .swap1 16 (fun _ => 3) ++ costRange .log0 5 (fun i => ((i : Int) + 1) * 375) ++
  ([(.create, 32000), (.call, 40), (.callcode, 40), (.return_, 0), (.invalid, 0),
     (.selfdestruct, 0)] : List (Opcode × Int))

/-- The entries that each row changes in its copy of the row before it. -/
def costOverrides : Revision → List (Opcode × Int)
  | .frontier => frontierCosts
  | .homestead => [(.delegatecall, 40)]
  | .tangerineWhistle =>
    [(.balance, 400), (.extcodesize, 700), (.extcodecopy, 700), (.sload, 200), (.call, 700),
      (.callcode, 700), (.delegatecall, 700), (.selfdestruct, 5000)]
  | .spuriousDragon => []
  | .byzantium =>
    [(.returndatasize, 2), (.returndatacopy, 3), (.staticcall, 700), (.revert, 0)]
  | .constantinople => [(.shl, 3), (.shr, 3), (.sar, 3), (.extcodehash, 400), (.create2, 32000)]
  | .petersburg => []
  | .istanbul =>
    [(.balance, 700), (.chainid, 2), (.extcodehash, 700), (.selfbalance, 5), (.sload, 800)]
  | .berlin =>
    [(.extcodesize, warmStorageReadCost), (.extcodecopy, warmStorageReadCost),
      (.extcodehash, warmStorageReadCost), (.balance, warmStorageReadCost),
      (.call, warmStorageReadCost), (.callcode, warmStorageReadCost),
      (.delegatecall, warmStorageReadCost), (.staticcall, warmStorageReadCost),
      (.sload, warmStorageReadCost)]
  | .london => [(.basefee, 2)]
  | .paris => []
  | .shanghai => [(.push0, 2)]
  | .cancun => []

/-- The row before. -/
def Revision.pred : Revision → Revision
  | .frontier => .frontier
  | .homestead => .frontier
  | .tangerineWhistle => .homestead
  | .spuriousDragon => .tangerineWhistle
  | .byzantium => .spuriousDragon
  | .constantinople => .byzantium
  | .petersburg => .constantinople
  | .istanbul => .petersburg
  | .berlin => .istanbul
  | .london => .berlin
  | .paris => .london
  | .shanghai => .paris
  | .cancun => .shanghai

/-- The first `n` revisions up to `rev`, the latest one first. -/
def revisionsDownFrom : Nat → Revision → List Revision
  | 0, rev => [rev]
  | n + 1, rev => rev :: revisionsDownFrom n rev.pred

/-- `gas_costs[rev]`. -/
def gasRow (rev : Revision) : List (Opcode × Int) :=
  (revisionsDownFrom rev.index rev).flatMap costOverrides

/-- `gas_costs[rev][opcode]`. -/
def gasCosts (rev : Revision) (opcode : Opcode) : Int :=
  ((gasRow rev).lookup opcode).getD undefined

/-! ### Traits -/

/-- `struct Traits`. -/
structure Traits where
  stackHeightRequired : Int
  stackHeightChange : Int
  deriving DecidableEq, Repr

/-- Traits for each opcode from `first` on, `count` of them. -/
def traitsRange (first : Opcode) (count : Nat) (traits : Nat → Traits) :
    List (Opcode × Traits) :=
  (List.range count).map fun i => (first + BitVec.ofNat 8 i, traits i)

/-- `TraitsTable_init`. -/
def traitsTable : List (Opcode × Traits) :=
  ([(.stop, ⟨0, 0⟩), (.add, ⟨2, -1⟩), (.mul, ⟨2, -1⟩), (.sub, ⟨2, -1⟩), (.div, ⟨2, -1⟩),
     (.sdiv, ⟨2, -1⟩), (.mod, ⟨2, -1⟩), (.smod, ⟨2, -1⟩), (.addmod, ⟨3, -2⟩), (.mulmod, ⟨3, -2⟩),
     (.exp, ⟨2, -1⟩), (.signextend, ⟨2, -1⟩), (.lt, ⟨2, -1⟩), (.gt, ⟨2, -1⟩), (.slt, ⟨2, -1⟩),
     (.sgt, ⟨2, -1⟩), (.eq, ⟨2, -1⟩), (.iszero, ⟨1, 0⟩), (.and, ⟨2, -1⟩), (.or, ⟨2, -1⟩),
     (.xor, ⟨2, -1⟩), (.not, ⟨1, 0⟩), (.byte, ⟨2, -1⟩), (.shl, ⟨2, -1⟩), (.shr, ⟨2, -1⟩),
     (.sar, ⟨2, -1⟩), (.keccak256, ⟨2, -1⟩), (.address, ⟨0, 1⟩), (.balance, ⟨1, 0⟩),
     (.origin, ⟨0, 1⟩), (.caller, ⟨0, 1⟩), (.callvalue, ⟨0, 1⟩), (.calldataload, ⟨1, 0⟩),
     (.calldatasize, ⟨0, 1⟩), (.calldatacopy, ⟨3, -3⟩), (.codesize, ⟨0, 1⟩), (.codecopy, ⟨3, -3⟩),
     (.gasprice, ⟨0, 1⟩), (.extcodesize, ⟨1, 0⟩), (.extcodecopy, ⟨4, -4⟩),
     (.returndatasize, ⟨0, 1⟩),
     (.returndatacopy, ⟨3, -3⟩), (.extcodehash, ⟨1, 0⟩), (.blockhash, ⟨1, 0⟩), (.coinbase, ⟨0, 1⟩),
     (.timestamp, ⟨0, 1⟩), (.number, ⟨0, 1⟩), (.difficulty, ⟨0, 1⟩), (.gaslimit, ⟨0, 1⟩),
     (.chainid, ⟨0, 1⟩), (.selfbalance, ⟨0, 1⟩), (.basefee, ⟨0, 1⟩), (.pop, ⟨1, -1⟩),
     (.mload, ⟨1, 0⟩), (.mstore, ⟨2, -2⟩), (.mstore8, ⟨2, -2⟩), (.sload, ⟨1, 0⟩),
     (.sstore, ⟨2, -2⟩),
     (.jump, ⟨1, -1⟩), (.jumpi, ⟨2, -2⟩), (.pc, ⟨0, 1⟩), (.msize, ⟨0, 1⟩), (.gas, ⟨0, 1⟩),
     (.jumpdest, ⟨0, 0⟩), (.push0, ⟨0, 1⟩)] : List (Opcode × Traits)) ++
  traitsRange .push1 32 (fun _ => ⟨0, 1⟩) ++ traitsRange .dup1 16 (fun i => ⟨i + 1, 1⟩) ++
  traitsRange .swap1 16 (fun i => ⟨i + 2, 0⟩) ++
  ([(.log0, ⟨2, -2⟩), (.log1, ⟨3, -3⟩), (.log2, ⟨4, -4⟩), (.log3, ⟨5, -5⟩), (.log4, ⟨6, -6⟩),
     (.create, ⟨3, -2⟩), (.call, ⟨7, -6⟩), (.callcode, ⟨7, -6⟩), (.return_, ⟨2, -2⟩),
     (.delegatecall, ⟨6, -5⟩), (.create2, ⟨4, -3⟩), (.staticcall, ⟨6, -5⟩), (.revert, ⟨2, -2⟩),
     (.invalid, ⟨0, 0⟩), (.selfdestruct, ⟨1, -1⟩)] : List (Opcode × Traits))

/-- `traits[opcode]`. The table is a global array, so an entry without traits is zero. -/
def traits (opcode : Opcode) : Traits := (traitsTable.lookup opcode).getD ⟨0, 0⟩

end TscVee
