import SkySdk.Base.Prog
import SkySdk.Base.Proc
import SkySdk.Base.Interleave
import SkySdk.Base.FileLock
import SkySdk.Base.Heap
import SkySdk.Base.Dll
import SkySdk.Base.CStr
import SkySdk.Base.Assoc
import SkySdk.Base.Buf
import SkySdk.Base.Bits
import SkySdk.Base.HexText
import SkySdk.Base.Layout
import SkySdk.Base.Regexp
import SkySdk.Base.Posix
import SkySdk.Base.Calendar
import SkySdk.Define
import SkySdk.Map.Defs
import SkySdk.Map.Spec
import SkySdk.Map.World
import SkySdk.Map.Proof.Own
import SkySdk.Map.Proof.Storage
import SkySdk.Map.Proof.Ops
import SkySdk.Map.Proof.Clone
import SkySdk.Map.Proof.Run
import SkySdk.Map.Proof.Refused
import SkySdk.Map.Proof.World
import SkySdk.Map.Proof.CloneRun
import SkySdk.List.Defs
import SkySdk.List.Spec
import SkySdk.List.Links
import SkySdk.List.Proof.Own
import SkySdk.List.Proof.Ops
import SkySdk.List.Proof.Remove
import SkySdk.List.Proof.Calls
import SkySdk.List.Proof.Life
import SkySdk.List.Proof.Prealloc
import SkySdk.List.Proof.Run
import SkySdk.List.Proof.Asserts
import SkySdk.List.Proof.Peak
import SkySdk.Base64.Defs
import SkySdk.Base64.Spec
import SkySdk.Base64.Rounds
import SkySdk.Base64.Proof.Encode
import SkySdk.Base64.Proof.Decode
import SkySdk.Base64.Proof.RoundTrip
import SkySdk.Base64.Proof.Writes
import SkySdk.Base64.Proof.Bits
import SkySdk.Base64.Proof.Rounds
import SkySdk.Str.Defs
import SkySdk.Str.Hex
import SkySdk.Str.Writes
import SkySdk.Str.Proof.Hex
import SkySdk.Str.Proof.Writes
import SkySdk.Str.Proof.Digits
import SkySdk.Str.Proof.Pairs
import SkySdk.Handle.Defs
import SkySdk.Hash.Defs
import SkySdk.Hash.Proof.Own
import SkySdk.Hash.Proof.Ops
import SkySdk.Hash.Proof.Run
import SkySdk.Regex.Defs
import SkySdk.Regex.Scan
import SkySdk.Regex.Proof.Own
import SkySdk.Regex.Proof.Ops
import SkySdk.Regex.Proof.Run
import SkySdk.Regex.Proof.Ledger
import SkySdk.Regex.Proof.Texts
import SkySdk.Regex.Proof.Termination
import SkySdk.Regex.Proof.Lines
import SkySdk.Shm.Defs
import SkySdk.Shm.World
import SkySdk.Shm.Process
import SkySdk.Shm.Proof.Stages
import SkySdk.Shm.Proof.Owned
import SkySdk.Shm.Proof.Names
import SkySdk.Shm.Proof.Resources
import SkySdk.Shm.Proof.Calls
import SkySdk.Shm.Proof.Registry
import SkySdk.Rwlock.Defs
import SkySdk.Rwlock.World
import SkySdk.Rwlock.Proof.Stages
import SkySdk.Rwlock.Proof.Owned
import SkySdk.Rwlock.Proof.Requests
import SkySdk.Rwlock.Proof.Exclusion
import SkySdk.Init.Defs
import SkySdk.Init.Run
import SkySdk.Debug.Defs
import SkySdk.Debug.Proof.PrintBuf
import SkySdk.Sys.Tick
import SkySdk.Sys.Proof.Tick
import SkySdk.Sys.Proof.Sleep
import SkySdk.Rwlock.Proof.Timeout
import SkySdk.Sys.Path
import SkySdk.Sys.Time
import SkySdk.Sys.Proof.Time
import SkySdk.Sys.Proof.Path
import SkySdk.Names.Distinct
import SkySdk.LocalSocket.Defs
import SkySdk.LocalSocket.Dump
import SkySdk.LocalSocket.Proof.Read
import SkySdk.Shm.Host
import SkySdk.Shm.Proof.Host
import SkySdk.Shm.Proof.Failing
import SkySdk.Base.Dotted
import SkySdk.Base.Checksum
import SkySdk.Base.RecMutex
import SkySdk.Str.Search
import SkySdk.LocalSocket.Gateway
import SkySdk.LocalSocket.Proof.Gateway
import SkySdk.LocalSocket.Proof.Untrusted
import SkySdk.LocalSocket.Udp
import SkySdk.LocalSocket.Proof.Udp
import SkySdk.CriticalSection.Defs
import SkySdk.CriticalSection.World
import SkySdk.CriticalSection.Proof.Stages
import SkySdk.CriticalSection.Proof.Requests
import SkySdk.CriticalSection.Proof.Exclusion
import SkySdk.CriticalSection.Proof.Progress
import SkySdk.Process.Defs
import SkySdk.Process.World
import SkySdk.Process.Proof.Stages
import SkySdk.Process.Proof.Election
import SkySdk.Process.Proof.Decision
import SkySdk.Base.Refine
import SkySdk.Shm.Threads
import SkySdk.Shm.Proof.Places
import SkySdk.Shm.Proof.Atomic
import SkySdk.Shm.Proof.Shared
import SkySdk.Base.BlockModes
import SkySdk.Des.Defs
import SkySdk.Des.Proof.Calls
import SkySdk.Des.Proof.RoundTrip
import SkySdk.Des.Proof.Chain
import SkySdk.List.Proof.Flow
import SkySdk.Base64.Proof.Pieces
import SkySdk.LocalSocket.Interface
import SkySdk.LocalSocket.Proof.Interface
import SkySdk.Dll.Defs
import SkySdk.Dll.Proof.Ledger
import SkySdk.Sys.Deadline
import SkySdk.Debug.Log
import SkySdk.Debug.Proof.Log
import SkySdk.Base.Assigned
import SkySdk.Rwlock.Proof.Books
import SkySdk.Rwlock.Proof.Ledger
import SkySdk.Shm.Buffer
import SkySdk.Shm.Proof.Extent
import SkySdk.Hash.Proof.Header
import SkySdk.Handle.Reachable
import SkySdk.Handle.Close
