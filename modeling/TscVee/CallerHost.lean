import TscVee.Execution

/-!
# `TscVee.CallerHost`: the host object of the caller behind a run

`ExecutionState_init_v` copies the host context into the state (`execution_state->host_ctx =
*host_ctx`), and the instructions work on the copy. The copied containers still point to the heap
blocks of the caller's containers, and the caller's object is never written.

* A vector is one pointer to a block with its size, its capacity and its items. As long as the copy
  uses the same block, both show the same vector. The sentinel is never written.
* A map keeps its size beside the pointers to its two arrays, so the size does not follow.
* A block that the copy has reallocated is freed, and the caller's pointer to it dangles: `none`.
-/

set_option autoImplicit false

namespace TscVee

/-- What the caller's vector `old` shows when its copy has become `self`. -/
def CVec.seenFrom {α : Type} (self old : CVec α) : Option (CVec α) :=
  if self.block = old.block then some self else if old.block = 0 then some old else none

/-- What the caller's map `old` shows when its copy has become `self`. -/
def CMap.seenFrom {κ ν : Type} (self old : CMap κ ν) : Option (CMap κ ν) :=
  if self.block = old.block then some { self with size := old.size }
  else if old.block = 0 then some old else none

/-- What the caller's host context `old` shows when its copy has become `self`. -/
def MockedHost.seenFrom (self old : MockedHost) : Option MockedHost := do
  let accounts ← self.accounts.seenFrom old.accounts
  let recordedBlockhashes ← self.recordedBlockhashes.seenFrom old.recordedBlockhashes
  let recordedAccountAccesses ← self.recordedAccountAccesses.seenFrom old.recordedAccountAccesses
  let recordedCalls ← self.recordedCalls.seenFrom old.recordedCalls
  let recordedLogs ← self.recordedLogs.seenFrom old.recordedLogs
  let recordedSelfdestructs ← self.recordedSelfdestructs.seenFrom old.recordedSelfdestructs
  let recordedCallsInputs ← self.recordedCallsInputs.seenFrom old.recordedCallsInputs
  return { old with
    accounts, recordedBlockhashes, recordedAccountAccesses, recordedCalls, recordedLogs
    recordedSelfdestructs, recordedCallsInputs }

end TscVee
