import TscVee.Proofs.AccessStatus
import TscVee.Proofs.Arithmetic
import TscVee.Proofs.BlockHash
import TscVee.Proofs.CallData
import TscVee.Proofs.CallEffect
import TscVee.Proofs.CallGas
import TscVee.Proofs.CallerObject
import TscVee.Proofs.CopyData
import TscVee.Proofs.CreateEffect
import TscVee.Proofs.ExitStatus
import TscVee.Proofs.Exponent
import TscVee.Proofs.HexCodec
import TscVee.Proofs.InstrTable
import TscVee.Proofs.JumpTarget
import TscVee.Proofs.LogRecords
import TscVee.Proofs.MemorySafety
import TscVee.Proofs.OutOfMemory
import TscVee.Proofs.ReturnData
import TscVee.Proofs.SelfDestruct
import TscVee.Proofs.Sha3Stream
import TscVee.Proofs.ShiftPointers
import TscVee.Proofs.ShiftWords
import TscVee.Proofs.SignExtend
import TscVee.Proofs.StackFrame
import TscVee.Proofs.StackSafety
import TscVee.Proofs.StaticMode
import TscVee.Proofs.StepBound
import TscVee.Proofs.StorageMap
import TscVee.Proofs.StorageStatus
import TscVee.Proofs.Summary
import TscVee.Proofs.Termination
import TscVee.Proofs.WordMemory
