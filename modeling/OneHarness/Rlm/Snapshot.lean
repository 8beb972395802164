/-
The snapshot of a kernel's namespace: what is written of it under the caps,
and what is restored.

A key is a string or another object. The serializer is a parameter with what
is assumed of it: the loader inverts it, and a payload's file does not shrink
with one more entry. Nothing interrupts, fails to be written or changes the
namespace meanwhile; the manifest is left out.
-/
import OneHarness.Lib.JsMap
import Mathlib.Data.List.Sort
import Mathlib.Data.String.Basic

namespace OneHarness.Rlm

open Lib

namespace Snapshot

inductive Key (κ : Type) where
  | str (name : String)
  | other (key : κ)
deriving DecidableEq

abbrev Payload := List (String × List UInt8)

/-- `dill`: a dump writes some bytes, and an exception may end it. -/
structure Serializer (V F : Type) where
  dump : V → List UInt8 × Option String
  loads : List UInt8 → Except String V
  dumpFile : Payload → F
  size : F → Nat
  loadFile : F → Option Payload
  loads_dump : ∀ v, (dump v).2 = none → loads (dump v).1 = .ok v
  loadFile_dumpFile : ∀ p, loadFile (dumpFile p) = some p
  size_mono : ∀ p q : Payload, p <+: q →
    size (dumpFile p) ≤ size (dumpFile q)

structure Caps where
  maxBytes : ℤ
  maxVariableBytes : ℤ
  pruneOversized : Bool

def alwaysSkip : List String :=
  ["rlm", "mcp", "bash", "asyncio", "In", "Out", "get_ipython", "exit", "quit",
    "open"]

def restoreSkip : List String := ["In", "Out", "get_ipython"]

/-- `name.startswith("_") or name in _ALWAYS_SKIP`. -/
def passedOver (name : String) : Bool :=
  "_".toList <+: name.toList || name ∈ alwaysSkip

structure Collected where
  payload : Payload := []
  skipped : List (String × String) := []
  oversized : List String := []
  total : ℤ := 0

def aggregate : String := "exceeds aggregate snapshot size cap"

def perVariable : String := "exceeds per-variable snapshot size cap"

variable {κ V F : Type} (dill : Serializer V F) (caps : Caps)

def collectOne (c : Collected) (name : String) (value : V) : Collected :=
  let skip : String → Collected := fun reason =>
    { c with skipped := c.skipped ++ [(name, reason)] }
  let remaining := caps.maxBytes - c.total
  let limit := if caps.pruneOversized then caps.maxVariableBytes
    else min caps.maxVariableBytes remaining
  let blob := (dill.dump value).1
  if limit < blob.length then
    if !caps.pruneOversized && remaining < caps.maxVariableBytes then
      skip aggregate
    else { skip perVariable with oversized := c.oversized ++ [name] }
  else
    match (dill.dump value).2 with
    | some reason => skip reason
    | none =>
      if caps.maxBytes < c.total + blob.length then skip aggregate
      else
        { c with
          payload := c.payload ++ [(name, blob)]
          total := c.total + blob.length }

/-- The loop over the names; `none` is an exception of `name.startswith`. -/
def collect : List (Key κ × V) → Collected → Option Collected
  | [], c => some c
  | (.other _, _) :: _, _ => none
  | (.str name, value) :: rest, c =>
    collect rest (if passedOver name then c else collectOne dill caps c name value)

/-- `while low < high`, where what fits at the middle may be more. -/
def searchPrefix (fits : Nat → Bool) : Nat → Nat → Nat → Nat
  | 0, low, _ => low
  | fuel + 1, low, high =>
    if low < high then
      let mid := (low + high + 1) / 2
      if fits mid then searchPrefix fits fuel mid high
      else searchPrefix fits fuel low (mid - 1)
    else low

structure Result (κ V F : Type) where
  saved : List String
  skipped : List (String × String)
  pruned : List String
  file : F
  ns : JsMap (Key κ) V

inductive Outcome (κ V F : Type) where
  | raised
  | error (text : String)
  | saved (result : Result κ V F)

def Fits (p : Payload) : Prop := (dill.size (dill.dumpFile p) : ℤ) ≤ caps.maxBytes

instance (p : Payload) : Decidable (Fits dill caps p) :=
  inferInstanceAs (Decidable (_ ≤ _))

def sorted (names : List String) : List String :=
  names.mergeSort fun a b => decide (a ≤ b)

section
variable [DecidableEq κ]

/-- The commit of a payload. -/
def commit (ns : JsMap (Key κ) V) (payload : Payload)
    (skipped : List (String × String)) (oversized : List String) :
    Outcome κ V F :=
  let pruned := if caps.pruneOversized then
      sorted (oversized.filter fun name => ns.has (.str name))
    else []
  .saved
    { saved := sorted (payload.map Prod.fst)
      skipped := skipped
      pruned := pruned
      file := dill.dumpFile payload
      ns := pruned.foldl (fun ns name => ns.delete (.str name)) ns }

def snapshotState (ns : JsMap (Key κ) V) : Outcome κ V F :=
  match collect dill caps ns {} with
  | none => .raised
  | some c =>
    if Fits dill caps c.payload then
      commit dill caps ns c.payload c.skipped c.oversized
    else if ¬Fits dill caps [] then
      .error "write failed: snapshot exceeds aggregate snapshot size cap"
    else
      let low := searchPrefix (fun k => Fits dill caps (c.payload.take k))
        c.payload.length 0 (c.payload.length - 1)
      let payload := c.payload.take low
      if ¬Fits dill caps payload then
        .error "write failed: snapshot exceeds aggregate snapshot size cap"
      else
        commit dill caps ns payload
          (c.skipped ++ (c.payload.drop low).map fun p => (p.1, aggregate))
          c.oversized

structure Restored (κ V : Type) where
  restored : List String
  failed : List (String × String)
  ns : JsMap (Key κ) V

def restoreState (ns : JsMap (Key κ) V) (file : F) :
    Except String (Restored κ V) :=
  match dill.loadFile file with
  | none => .error "corrupt snapshot: not a dict"
  | some payload =>
    let names := payload.filter (·.1 ∉ restoreSkip)
    let staged := names.filterMap fun p =>
      (dill.loads p.2).toOption.map (p.1, ·)
    .ok
      { restored := sorted (staged.map Prod.fst)
        failed := names.filterMap fun p =>
          match dill.loads p.2 with
          | .error reason => some (p.1, reason)
          | .ok _ => none
        ns := staged.foldl (fun ns p => ns.set (.str p.1) p.2) ns }

end

end Snapshot

end OneHarness.Rlm
