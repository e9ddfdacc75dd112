import Zylib.Cpp

/-! `Snowflake`: ids made of the time, the id of the worker and a sequence number. What the clock shows, each
    time that it is read, is a list. -/

namespace Zylib

/-- What `gettimeofday` writes. -/
structure Timeval where
  tv_sec : Int64
  tv_usec : Int64
deriving DecidableEq

def genTimestamp (tv : Timeval) : UInt64 := tv.tv_usec.toUInt64 / 1000 + tv.tv_sec.toUInt64 * 1000

structure Snowflake (TM_BITS WORKER_ID_BITS SEQUENCE_BITS : Nat) where
  workerId : UInt64
  lastTimestamp : UInt64 := 0
  sequence : UInt64 := 0
deriving DecidableEq

namespace Snowflake

def MAX_WORKER_ID (WORKER_ID_BITS : Nat) : UInt64 := 1 <<< UInt64.ofNat WORKER_ID_BITS
def MAX_SEQUENCE (SEQUENCE_BITS : Nat) : UInt64 := 1 <<< UInt64.ofNat SEQUENCE_BITS

def SEQUENCE_MASK (SEQUENCE_BITS : Nat) : UInt64 := MAX_SEQUENCE SEQUENCE_BITS - 1

def WORKER_ID_SHIFT (SEQUENCE_BITS : Nat) : UInt64 := UInt64.ofNat SEQUENCE_BITS
def TM_SHIFT (WORKER_ID_BITS SEQUENCE_BITS : Nat) : UInt64 := UInt64.ofNat SEQUENCE_BITS + UInt64.ofNat WORKER_ID_BITS

variable {tm w sq : Nat}

/-- The constructor. The start of the epoch that it takes is not used. -/
def ofWorker (worker_id : UInt32) : Snowflake tm w sq := { workerId := worker_id.toUInt64 }

/-- The first later time that the clock shows, with what it shows after that; `none` if it shows none. -/
def waitNextMilliseconds (lastTimestamp : UInt64) : List Timeval → Option (UInt64 × List Timeval)
  | [] => none
  | tv :: clock =>
    if genTimestamp tv ≤ lastTimestamp then waitNextMilliseconds lastTimestamp clock
    else some (genTimestamp tv, clock)

/-- The id that is put together at the end of `nextID`. -/
def makeID (g : Snowflake tm w sq) : Int64 :=
  let id := (g.lastTimestamp <<< TM_SHIFT w sq).toInt64
  let id := (id.toUInt64 ||| g.workerId <<< WORKER_ID_SHIFT sq).toInt64
  (id.toUInt64 ||| g.sequence).toInt64

def nextID (g : Snowflake tm w sq) : List Timeval → Option (Int64 × Snowflake tm w sq × List Timeval)
  | [] => none
  | tv :: clock =>
    let timestamp := genTimestamp tv
    -- the clock went back
    if timestamp < g.lastTimestamp then some (0, g, clock)
    else if g.lastTimestamp = timestamp then
      let sequence := (g.sequence + 1) &&& SEQUENCE_MASK sq
      if sequence = 0 then
        (waitNextMilliseconds g.lastTimestamp clock).map fun (timestamp, clock) =>
          let g := { g with lastTimestamp := timestamp, sequence }
          (g.makeID, g, clock)
      else
        let g := { g with lastTimestamp := timestamp, sequence }
        some (g.makeID, g, clock)
    else
      let g := { g with lastTimestamp := timestamp, sequence := 0 }
      some (g.makeID, g, clock)

/-- The ids that `n` calls return; `none` if the clock does not show enough times. -/
def nextIDs (g : Snowflake tm w sq) : Nat → List Timeval → Option (List Int64)
  | 0, _ => some []
  | n + 1, clock =>
    match g.nextID clock with
    | none => none
    | some (id, g, clock) => (nextIDs g n clock).map (id :: ·)

end Snowflake

end Zylib
