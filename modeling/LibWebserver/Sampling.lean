import LibWebserver.HttpTypes
import LibWebserver.Status
import LibWebserver.Library.Refinement
import Mathlib.Logic.Function.Basic

/-! The statistics between the threads that serve requests and the one that runs
`WebserverStatus::Run`. Every operation on a shared variable is a step of its own. -/

namespace LibWebserver

/-- What a call of `ServedRequest` does next. -/
inductive Serving where
  /-- `http_served_[code]++` is not atomic. -/
  | load
  | store (served : UInt64)
  | traffic
  | sum
  | count
  | rate
  | testLatency
  | testRate
  | maximum
  | done
  deriving DecidableEq, Repr

/-- A call of `ServedRequest`, with the latency when the message has a timer. -/
structure ServedRequest where
  code : HttpCode
  length : UInt64
  latency : Option UInt32
  stage : Serving := .load
  deriving DecidableEq, Repr

/-- What `Run` does next. -/
inductive Tick where
  | rate
  | subtract (rate : UInt32)
  | maximum (rate : UInt32)
  | sustained (rate : UInt32)
  | attained (rate : UInt32)
  | testSum
  | testCount
  /-- The operands of the division are read in either order. -/
  | average
  | count (sum : UInt32)
  | sum (count : UInt32)
  | resetSum (sum count : UInt32)
  | resetCount (sum count : UInt32)
  | latency (sum count : UInt32)
  | clear
  | requests (rest : List HttpCode)
  deriving DecidableEq, Repr

structure Sampling where
  httpServed : HttpCode → UInt64 := fun _ => 0
  trafficOut : UInt64 := 0
  outgoingRate : UInt32 := 0
  maxLatency : UInt32 := 0
  maxAttainedRate : UInt32 := 0
  fastLatencySum : UInt32 := 0
  fastLatencyCount : UInt32 := 0
  totalServedRequests : UInt64 := 0
  /-- Every call so far, in order. -/
  served : List ServedRequest := []
  tick : Tick := .rate
  /-- The calculations the ticks have made; a latency is averaged over its sum and its count. -/
  calculations : List WebserverStatus.Call := []

/-- `http_served_`, from `begin` to `end`. -/
def HttpCode.all : List HttpCode :=
  [.ok, .noContent, .badRequest, .forbidden, .notFound, .notAcceptable, .timeout, .tooManyConnections]

namespace Sampling

variable (self : Sampling)

/-- A call goes on to its next stage. -/
def goOn (i : Nat) (request : ServedRequest) (stage : Serving) : Sampling :=
  { self with served := self.served.set i { request with stage } }

def servedRequest (i : Nat) (request : ServedRequest) : Sampling :=
  match request.stage, request.latency with
  | .load, _ => self.goOn i request (.store (self.httpServed request.code))
  | .store served, _ =>
    { self.goOn i request .traffic with httpServed := Function.update self.httpServed request.code (served + 1) }
  | .traffic, none => { self.goOn i request .done with trafficOut := self.trafficOut + request.length }
  | .traffic, some _ => { self.goOn i request .sum with trafficOut := self.trafficOut + request.length }
  | .sum, some latency => { self.goOn i request .count with fastLatencySum := self.fastLatencySum + latency }
  | .count, some _ => { self.goOn i request .rate with fastLatencyCount := self.fastLatencyCount + 1 }
  | .rate, some _ => { self.goOn i request .testLatency with outgoingRate := self.outgoingRate + 1 }
  | .testLatency, some latency => self.goOn i request (if latency > self.maxLatency then .testRate else .done)
  | .testRate, some _ => self.goOn i request (if self.maxAttainedRate ≠ 0 then .maximum else .done)
  | .maximum, some latency => { self.goOn i request .done with maxLatency := latency }
  | _, _ => self

/-- `Run`, and the calculations it calls. A run that stops takes no step any more. -/
def run (countFirst : Bool) : Sampling :=
  match self.tick with
  | .rate => { self with tick := .subtract self.outgoingRate }
  | .subtract rate => { self with outgoingRate := self.outgoingRate - rate, tick := .maximum rate }
  | .maximum rate =>
    { self with
      maxAttainedRate := if self.maxAttainedRate < rate then rate else self.maxAttainedRate
      tick := .sustained rate }
  | .sustained rate => { self with calculations := self.calculations ++ [.sustainedRate rate], tick := .attained rate }
  | .attained rate => { self with calculations := self.calculations ++ [.attainedRate rate], tick := .testSum }
  | .testSum => { self with tick := if self.fastLatencySum ≠ 0 then .testCount else .clear }
  | .testCount => { self with tick := if self.fastLatencyCount ≠ 0 then .average else .clear }
  | .average =>
    { self with tick := if countFirst then .sum self.fastLatencyCount else .count self.fastLatencySum }
  | .count sum => { self with tick := .resetSum sum self.fastLatencyCount }
  | .sum count => { self with tick := .resetSum self.fastLatencySum count }
  | .resetSum sum count => { self with fastLatencySum := 0, tick := .resetCount sum count }
  | .resetCount sum count => { self with fastLatencyCount := 0, tick := .latency sum count }
  | .latency sum count => { self with calculations := self.calculations ++ [.latency sum count], tick := .clear }
  | .clear => { self with totalServedRequests := 0, tick := .requests HttpCode.all }
  | .requests [] => { self with tick := .rate }
  | .requests (code :: rest) =>
    { self with totalServedRequests := self.totalServedRequests + self.httpServed code, tick := .requests rest }

/-- Who moves next. -/
inductive Move where
  | serve (code : HttpCode) (length : UInt64) (latency : Option UInt32)
  | advance (i : Nat)
  | tick (countFirst : Bool)
  deriving DecidableEq, Repr

/-- A move that is not possible changes nothing. -/
def step : Move → Sampling
  | .serve code length latency => { self with served := self.served ++ [{ code, length, latency }] }
  | .advance i => match self.served[i]? with
    | none => self
    | some request => self.servedRequest i request
  | .tick countFirst => self.run countFirst

end Sampling
end LibWebserver
