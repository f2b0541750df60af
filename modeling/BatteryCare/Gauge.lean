import BatteryCare.Record

/-!
# Charge gauge

The gauge turns voltage samples into a charge estimate and keeps the latest one in a word store.

The first sample after boot is a poor estimate on the flat part of the curve, so the last estimate
is restored from the store and stands until the first plausible sample. From then on it moves
towards the measured charge by at most one settling step for each sample, until it has caught up;
after that it follows the samples.

A sample outside the plausible voltages changes neither the estimate nor the store. The record is
saved again once the level has moved by the deadband from the stored one, or where the gauge does
not know the whole record, as after a failed write.
-/

namespace BatteryCare

/-- Calibration of the gauge. -/
structure GaugeConfig where
  /-- First address of the stored record. -/
  recordBase : UInt16 := 0
  /-- A voltage below this is a sensor fault (mV). -/
  minVoltage : UInt16 := 1000
  /-- A voltage above this is a sensor fault (mV). -/
  maxVoltage : UInt16 := 10000
  /-- The largest move of a restored estimate for each sample, in percent of a full pack. -/
  settleStep : UInt8 := 1
  /-- The change of the level, in percent, at which the record is saved again. -/
  deadband : UInt8 := 2
  deriving DecidableEq, Repr

/-- Where the current estimate comes from. -/
inductive Knowledge where
  /-- Nothing is known yet. -/
  | unknown
  /-- Restored from the store, without a plausible sample since. -/
  | restored (estimate : Estimate)
  /-- Derived from the last plausible sample, taken at `voltage` (mV). -/
  | measured (voltage : UInt16) (estimate : Estimate)
  deriving DecidableEq

/-- The gauge. -/
structure Gauge where
  config : GaugeConfig
  knowledge : Knowledge := .unknown
  /-- What the store is known to hold of the record, word by word. -/
  cache : List (Option UInt16) := [none, none, none]
  /-- A restored estimate is still catching up with the samples. -/
  settling : Bool := false
  deriving DecidableEq

namespace Gauge

/-! ## What the gauge shows -/

/-- The current estimate. -/
def estimate? (g : Gauge) : Option Estimate :=
  match g.knowledge with
  | .unknown => none
  | .restored e => some e
  | .measured _ e => some e

/-- The last plausible voltage (mV). -/
def voltage? (g : Gauge) : Option UInt16 :=
  match g.knowledge with
  | .measured voltage _ => some voltage
  | _ => none

/-- The estimate of the last plausible sample. -/
def measurement? (g : Gauge) : Option (UInt16 × Estimate) :=
  match g.knowledge with
  | .measured voltage e => some (voltage, e)
  | _ => none

/-- The level in percent, `0` while nothing is known. -/
def percent (g : Gauge) : UInt8 := g.estimate?.elim 0 Estimate.percent

/-- The charge, `0` while nothing is known. -/
def charge (g : Gauge) : Single := g.estimate?.elim 0 Estimate.charge

/-- Whether a sample of this voltage is taken into account. -/
def isPlausible (c : GaugeConfig) (voltage : UInt16) : Bool :=
  voltage ≠ 0 && c.minVoltage ≤ voltage && voltage ≤ c.maxVoltage

/-! ## Restoring and settling -/

/-- A gauge on a store, with the estimate of the stored record where there is one. -/
def restore (config : GaugeConfig) (store : Store) : Gauge :=
  match store.readAll? (recordAddrs config.recordBase) with
  | none => { config }
  | some words =>
    match Estimate.ofWords? words with
    | none => { config }
    | some e => { config, knowledge := .restored e, cache := words.map some, settling := true }

/-- The charge of one settling step. -/
def stepCharge (c : GaugeConfig) : Single := fullCharge * Single.ofNat c.settleStep.toNat / 100

/-- A charge moved towards the measured one, by one step at most. -/
def settleTowards (c : GaugeConfig) (current measured : Single) : Single :=
  (measured.max (current - stepCharge c)).min (current + stepCharge c)

/-! ## Keeping the record -/

/-- Whether the stored record is known in full and its level is close enough to a new one. -/
def isKept (g : Gauge) (percent : UInt8) : Bool :=
  match g.cache with
  | [some first, some _, some stored] =>
    first = Estimate.marker &&
      (percent.toNat - stored.toNat) + (stored.toNat - percent.toNat) < g.config.deadband.toNat
  | _ => false

/-- The words of the record of an estimate, each beside what the store is known to hold. -/
def slots (g : Gauge) (e : Estimate) : List Slot :=
  ((recordAddrs g.config.recordBase).zip (g.cache.zip e.words)).map fun (addr, cached, value) =>
    ⟨addr, cached, value⟩

/-! ## Samples -/

/-- A gauge and its store after a sample. -/
structure Outcome where
  gauge : Gauge
  store : Store
  /-- The writes tried, in order. -/
  attempts : List WriteAttempt

/-- Takes a voltage sample (mV) into account. -/
def update (g : Gauge) (store : Store) (voltage : UInt16) : Outcome :=
  if isPlausible g.config voltage then
    let measured := chargeOf voltage
    let charge := if g.settling then settleTowards g.config g.charge measured else measured
    let e := Estimate.ofCharge charge
    let g := { g with
      knowledge := .measured voltage e
      settling := g.settling && charge ≠ measured }
    if g.isKept e.percent then ⟨g, store, []⟩
    else
      let saved := store.save (g.slots e)
      ⟨{ g with cache := saved.cache }, saved.store, saved.attempts⟩
  else ⟨g, store, []⟩

end Gauge

end BatteryCare
