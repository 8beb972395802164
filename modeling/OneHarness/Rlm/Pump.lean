/-
The pump of a captured stream: user code writes bytes to a pipe, a thread
reads them and sends them on as text, and `drain` waits for all of them by
a token it writes behind them.

The pipe is what is written and not yet read. A read and the feeding of what
was read are two steps, since a drain may begin or end in between. Of a drain
that an interrupt cuts short nothing is left but what it wrote. Of the user's
bytes there is a record, `closed` at every token that was written.
-/
import OneHarness.Lib.Search
import OneHarness.Lib.TextDecoder

namespace OneHarness.Rlm

open Lib

abbrev Bytes := List UInt8

/-- The hex digits of the uuid and what is around them. -/
def mark (id : Bytes) : Bytes :=
  Utf8.encode "<drain:".toList ++ id ++ Utf8.encode ">".toList

def drainToken (id : Bytes) : Bytes := 0xff :: mark id ++ [0xff]

structure Pump where
  watch : Option Bytes := none
  buf : Bytes := []
  decoder : Utf8.Pending := .start
  sent : List (List Char) := []

namespace Pump

def send (p : Pump) (text : List Char) : Pump :=
  if text = [] then p else { p with sent := p.sent ++ [text] }

/-- `_emit`. -/
def emit (p : Pump) (data : Bytes) : Pump :=
  if data = [] then p
  else
    let out := Utf8.feed p.decoder data
    { p with decoder := out.1 }.send out.2

/-- `_finish_decode`. -/
def finishDecode (p : Pump) : Pump :=
  { p with decoder := .start }.send (Utf8.flush p.decoder)

/-- The loop over the tokens in the data: whether there was one, and what
follows the last. -/
def takeTokens (token : Bytes) : Nat → Pump → Bytes → Pump × Bytes × Bool
  | 0, p, data => (p, data, false)
  | fuel + 1, p, data =>
    match Search.indexOf token data with
    | none => (p, data, false)
    | some i =>
      let out := takeTokens token fuel (p.emit (data.take i)).finishDecode
        (data.drop (i + token.length))
      (out.1, out.2.1, true)

/-- The longest end of the data, of at most so many bytes, that may be the
start of a token. -/
def hold (token data : Bytes) : Nat → Nat
  | 0 => 0
  | k + 1 => if token.take (k + 1) <:+ data then k + 1 else hold token data k

/-- `_feed`, and whether it sets `seen`. -/
def feed (p : Pump) (chunk : Bytes) : Pump × Bool :=
  let data := p.buf ++ chunk
  let p := { p with buf := [] }
  match p.watch with
  | none => (p.emit data, false)
  | some token =>
    let out := takeTokens token data.length p data
    let data := out.2.1
    let kept := data.length
      - hold token data (min data.length (token.length - 1))
    ({ out.1.emit (data.take kept) with buf := data.drop kept }, out.2.2)

end Pump

/-- How far a drain is. -/
inductive Phase where
  | watching | written | seen
deriving DecidableEq

structure Capture where
  pump : Pump := {}
  pipe : Bytes := []
  chunk : Bytes := []
  drain : Option Phase := none
  closed : List Bytes := []
  current : Bytes := []
  completed : Nat := 0

inductive Event where
  | write (data : Bytes)
  | drain (id : Bytes)
  | token
  | read (n : Nat)
  | feed
  | finish
  | interrupt

namespace Capture

def unwatch (c : Capture) : Capture :=
  { c with drain := none, pump := { c.pump with watch := none } }

/-- A step that cannot be taken changes nothing. -/
def step (c : Capture) : Event → Capture
  | .write data =>
    { c with pipe := c.pipe ++ data, current := c.current ++ data }
  | .drain id =>
    if c.drain = none then
      { c with
        drain := some .watching
        pump := { c.pump with watch := some (drainToken id) } }
    else c
  | .token =>
    if c.drain = some .watching then
      { c with
        drain := some .written
        pipe := c.pipe ++ c.pump.watch.getD []
        closed := c.closed ++ [c.current]
        current := [] }
    else c
  | .read n =>
    if c.chunk = [] then
      { c with chunk := c.pipe.take n, pipe := c.pipe.drop n }
    else c
  | .feed =>
    if c.chunk = [] then c
    else
      let out := c.pump.feed c.chunk
      { c with
        pump := out.1
        chunk := []
        drain := if out.2 then c.drain.map fun _ => .seen else c.drain
        completed := if out.2 then c.completed + 1 else c.completed }
  | .finish => if c.drain = some .seen then c.unwatch else c
  | .interrupt => c.unwatch

end Capture

end OneHarness.Rlm
