import LibWebserver.Library.Window
import Mathlib.Data.UInt

/-! The statistics of the webserver: rates and latencies of the last one, five and
fifteen minutes. -/

namespace LibWebserver

/-- The arithmetic of the averages, in single and double precision. -/
class Floating (single : Type) (double : outParam Type) where
  ofUnsigned : UInt32 → single
  ofInt : Int32 → single
  ofSize : Nat → single
  div : single → single → single
  positive : single → Bool
  toUnsigned : single → UInt32
  zero : double
  add : double → single → double
  divide : double → single → double
  truncate : double → UInt32

instance : Floating Float32 Float where
  ofUnsigned := UInt32.toFloat32
  ofInt := Int32.toFloat32
  ofSize := Float32.ofNat
  div := (· / ·)
  positive average := 0 < average
  toUnsigned := Float32.toUInt32
  zero := 0
  add sum average := sum + average.toFloat
  divide sum size := sum / size.toFloat
  truncate := Float.toUInt32

/-- Three histories that share one position. -/
structure Windows (α : Type) where
  position : Nat := 0
  history1 : List α := []
  history5 : List α := []
  history15 : List α := []
  deriving Repr

structure Averages where
  minute1 : UInt32 := 0
  minute5 : UInt32 := 0
  minute15 : UInt32 := 0
  deriving DecidableEq, Repr

structure WebserverStatus (single : Type) where
  sustainedRateHistory : Windows UInt32 := {}
  attainedRateHistory : Windows UInt32 := {}
  latencyHistory : Windows single := {}
  sustainedRate : Averages := {}
  attainedRate : Averages := {}
  latency : Averages := {}
  fastLatencySum : UInt32 := 0
  fastLatencyCount : UInt32 := 0

/-- The part the three calculations have in common; `none` when an index is out of range. -/
def Windows.add {α : Type} (self : Windows α) (sample : α) : Option (Windows α) := do
  let history1 ← Window.push 60 (self.position % 60) sample self.history1
  let history5 ← Window.push 300 (self.position % 300) sample self.history5
  let history15 ← Window.push 900 self.position sample self.history15
  let position := if self.position + 1 ≥ 900 then 0 else self.position + 1
  some { position, history1, history5, history15 }

/-- `size_1`, `size_5` and `size_15`, from a history before the call. -/
def windowSize {α : Type} (capacity : Nat) (history : List α) : Nat :=
  if history.length < capacity then history.length + 1 else capacity

namespace WebserverStatus

variable {single double : Type} [Floating single double]

/-- `std::accumulate` from the `int` 0. -/
def accumulate (history : List UInt32) : Int32 :=
  history.foldl (fun sum rate => (sum.toUInt32 + rate).toInt32) 0

def averageRate (single : Type) [Floating single double] (history : List UInt32) (size : Nat) : UInt32 :=
  Floating.toUnsigned (Floating.div (Floating.ofInt (accumulate history) : single) (Floating.ofSize size))

def averageLatency (history : List single) (size : Nat) : UInt32 :=
  Floating.truncate single
    (Floating.divide (history.foldl Floating.add (Floating.zero single)) (Floating.ofSize size : single))

def calculateSustainedRate (self : WebserverStatus single) (rate : UInt32) : Option (WebserverStatus single) := do
  let before := self.sustainedRateHistory
  let after ← before.add rate
  let sustainedRate := {
    minute1 := averageRate single after.history1 (windowSize 60 before.history1)
    minute5 := averageRate single after.history5 (windowSize 300 before.history5)
    minute15 := averageRate single after.history15 (windowSize 900 before.history15) }
  some { self with sustainedRateHistory := after, sustainedRate }

/-- The average of five minutes is divided by the size of fifteen. -/
def calculateAttainedRate (self : WebserverStatus single) (rate : UInt32) : Option (WebserverStatus single) :=
  if rate = 0 then some self
  else do
    let before := self.attainedRateHistory
    let after ← before.add rate
    let attainedRate := {
      minute1 := averageRate single after.history1 (windowSize 60 before.history1)
      minute5 := averageRate single after.history5 (windowSize 900 before.history15)
      minute15 := averageRate single after.history15 (windowSize 900 before.history15) }
    some { self with attainedRateHistory := after, attainedRate }

def calculateLatency (self : WebserverStatus single) : Option (WebserverStatus single) :=
  if self.fastLatencySum ≠ 0 ∧ self.fastLatencyCount ≠ 0 then
    let average : single :=
      Floating.div (Floating.ofUnsigned self.fastLatencySum) (Floating.ofUnsigned self.fastLatencyCount)
    let self := { self with fastLatencySum := 0, fastLatencyCount := 0 }
    if Floating.positive average then do
      let before := self.latencyHistory
      let after ← before.add average
      let latency := {
        minute1 := averageLatency after.history1 (windowSize 60 before.history1)
        minute5 := averageLatency after.history5 (windowSize 300 before.history5)
        minute15 := averageLatency after.history15 (windowSize 900 before.history15) }
      some { self with latencyHistory := after, latency }
    else some self
  else some self

/-- A call of one of the calculations, a latency tick with the sum and the count the
requests served since the last one have left. -/
inductive Call where
  | sustainedRate (rate : UInt32)
  | attainedRate (rate : UInt32)
  | latency (sum count : UInt32)
  deriving DecidableEq, Repr

def call (self : WebserverStatus single) : Call → Option (WebserverStatus single)
  | .sustainedRate rate => self.calculateSustainedRate rate
  | .attainedRate rate => self.calculateAttainedRate rate
  | .latency sum count => { self with fastLatencySum := sum, fastLatencyCount := count }.calculateLatency

end WebserverStatus
end LibWebserver
