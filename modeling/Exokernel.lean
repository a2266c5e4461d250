import Exokernel.Config
import Exokernel.Console
import Exokernel.Env.Basic
import Exokernel.Env.Id
import Exokernel.Env.Mailbox
import Exokernel.Env.Table
import Exokernel.Errno
import Exokernel.FaultCode
import Exokernel.Kernel.Basic
import Exokernel.Kernel.Cpu
import Exokernel.Kernel.Message
import Exokernel.Kernel.Program
import Exokernel.Kernel.Trap
import Exokernel.Layout
import Exokernel.LittleEndian
import Exokernel.Memory.Machine
import Exokernel.Memory.Page
import Exokernel.Memory.Pool
import Exokernel.Paging.Space
import Exokernel.Paging.Table
import Exokernel.Perm
import Exokernel.Proofs.Env.Chronicle
import Exokernel.Proofs.Env.Map
import Exokernel.Proofs.Env.Table
import Exokernel.Proofs.Kernel.Accounting
import Exokernel.Proofs.Kernel.Chronicle
import Exokernel.Proofs.Kernel.Confinement
import Exokernel.Proofs.Kernel.Identity
import Exokernel.Proofs.Kernel.Privilege
import Exokernel.Proofs.Kernel.Program
import Exokernel.Proofs.Kernel.Roster
import Exokernel.Proofs.Kernel.Run
import Exokernel.Proofs.Kernel.Schedule
import Exokernel.Proofs.Kernel.Sharing
import Exokernel.Proofs.Kernel.Sound
import Exokernel.Proofs.Kernel.Trap
import Exokernel.Proofs.Memory.Balance
import Exokernel.Proofs.Memory.Tidy
import Exokernel.Proofs.Paging.Access
import Exokernel.Proofs.Paging.Frames
import Exokernel.Proofs.Paging.Space
import Exokernel.Proofs.Scheduler
import Exokernel.Proofs.Syscall.Ecall
import Exokernel.Proofs.Syscall.Effect
import Exokernel.Proofs.Syscall.Failure
import Exokernel.Proofs.User.Access
import Exokernel.Proofs.User.Call
import Exokernel.Proofs.User.Calm
import Exokernel.Proofs.User.CopyOnWrite
import Exokernel.Proofs.User.Fault
import Exokernel.Proofs.User.Flat
import Exokernel.Proofs.User.Fork
import Exokernel.Proofs.User.Heap
import Exokernel.Proofs.User.Refinement
import Exokernel.Proofs.User.Spawn
import Exokernel.Registers
import Exokernel.Scheduler
import Exokernel.Syscall.Error
import Exokernel.Syscall.Service
import Exokernel.Syscall.Table
import Exokernel.Text.Flags
import Exokernel.Text.Hex
import Exokernel.Text.Quoted
import Exokernel.User.Call
import Exokernel.User.CopyOnWrite
import Exokernel.User.Fork
import Exokernel.User.Message
import Exokernel.User.Panic
import Exokernel.User.Process
import Exokernel.User.Routine
import Exokernel.VirtAddr
import Exokernel.Word
import Exokernel.Proofs.Kernel.Coherence
import Exokernel.Proofs.Kernel.Rendezvous
import Exokernel.Proofs.Kernel.Authority
import Exokernel.Proofs.User.Fence
import Exokernel.Proofs.User.Isolation
import Exokernel.Proofs.Memory.Showing
import Exokernel.Proofs.Kernel.Showing
import Exokernel.Proofs.Kernel.Noninterference
import Exokernel.Proofs.Syscall.Verdict
import Exokernel.Proofs.User.Works
import Exokernel.Proofs.User.Panic
import Exokernel.Proofs.Kernel.Bystander
import Exokernel.Proofs.User.Message
import Exokernel.Proofs.Kernel.Orphan
import Exokernel.Proofs.User.Orphan
import Exokernel.Proofs.Kernel.Ledger
import Exokernel.Proofs.Paging.Fault
import Exokernel.Proofs.User.Ledger
import Exokernel.Proofs.User.PageCopy
import Exokernel.Proofs.User.PrivateCopy
import Exokernel.Proofs.User.Nesting
import Exokernel.Proofs.User.Store
import Exokernel.Proofs.User.Duplicate
import Exokernel.Proofs.User.ForkedSpace
import Exokernel.Proofs.Paging.Check
import Exokernel.Proofs.Paging.Counters
import Exokernel.Proofs.Paging.Map
import Exokernel.Proofs.User.Rounds
import Exokernel.Proofs.User.Retry
import Exokernel.Proofs.RoundRobin
import Exokernel.Proofs.Paging.Bytewise
import Exokernel.Proofs.Kernel.Load
import Exokernel.Proofs.Kernel.Launch
import Exokernel.Proofs.User.Growth
import Exokernel.Proofs.Registers
import Exokernel.Proofs.Memory.Budget
import Exokernel.Proofs.Kernel.Turns
import Exokernel.Proofs.User.Send
