import PoolWatch.Console
import PoolWatch.Http.Answer
import PoolWatch.Http.Request
import Std.Async.DNS
import Std.Async.Signal
import Std.Async.TCP
/-!
# The command line

Reads the settings from the environment, polls the backend until it is interrupted, and prints
the lines of the console client. Deciding what happens is left to the library; here are only the
clock, the connections and the chart file.
-/

namespace PoolWatch.CommandLine

open Std.Async

def environment : IO Settings.Source := do
  let values ← Settings.varNames.mapM fun name => return (name, ← IO.getEnv name)
  return fun name => (values.lookup name).join

/-! ## Connections -/

partial def receive (client : TCP.Socket.Client) (received : ByteArray) : Async ByteArray := do
  match ← client.recv? 65536 with
  | none => return received
  | some more => receive client (received ++ more)

def socketAddress (service : UInt16) : Std.Net.IPAddr → Std.Net.SocketAddress
  | .v4 addr => .v4 ⟨addr, service⟩
  | .v6 addr => .v6 ⟨addr, service⟩

def ask (e : Http.Endpoint) : Async ByteArray := do
  let addresses ← DNS.getAddrInfo e.host.text (toString e.service)
  match addresses[0]? with
  | none => throw (IO.userError "the host is not known")
  | some address =>
    let client ← TCP.Socket.Client.mk
    client.connect (socketAddress e.service address)
    client.send e.request.toUTF8
    receive client ByteArray.empty

def exchange (url : String) : IO Exchange :=
  Http.exchangeAt url fun e => do
    try
      return Http.exchangeOf (← (ask e).block).toList
    catch error => return .unreachable (toString error)

/-! ## The client at work -/

structure Request where
  run : Nat
  seq : Nat
  deadline : Nat
  task : Task (Except IO.Error Exchange)

/-- The client at work. Times are in milliseconds. -/
structure Client where
  settings : Settings
  poller : Poller (List Group) (FeedObserver Empty)
  record : Console.Record
  session : Session := {}
  requests : List Request := []
  nextTick : Nat
  nextStats : Nat

def print (lines : List Console.Line) : IO Unit :=
  lines.forM fun line => IO.println line.text

def reason : IO.Error → String
  | .noFileOrDirectory _ code details
  | .permissionDenied _ code details
  | .inappropriateType _ code details
  | .invalidArgument _ code details
  | .resourceExhausted _ code details => details ++ " (os error " ++ toString code ++ ")"
  | error => toString error

def writeChart (path document : String) : IO Unit := do
  try
    let file ← IO.FS.Handle.mk path .write
    file.putStr document
    file.flush
  catch error => print [Console.unwrittenLine path (reason error)]

namespace Client

def take (c : Client) (events : List (Event (List Group) (FeedObserver Empty))) : IO Client :=
  events.foldlM
    (fun c event => do
      let fresh := { c.record with lines := [], chart := none }
      match fresh.takeEvent c.settings (fun _ => none) event with
      | .error _ => throw (IO.userError "the chart is too large")
      | .ok record =>
        print record.lines
        match c.settings.chartPath, record.chart with
        | some path, some document => writeChart path document
        | _, _ => pure ()
        return { c with record })
    c

def land (c : Client) (r : Request) (e : Exchange) : IO Client := do
  let (outcome, session) := e.fetch c.session
  let pool := outcome.map Pool.arrange
  let (poller, events) := c.poller.complete (FeedObserver.behaviour noObservers) r.run r.seq pool
  { c with poller, session }.take events

/-- Lands the requests that have ended or are given up. -/
def settle (c : Client) (now : Nat) : IO Client := do
  let requests := c.requests
  requests.foldlM
    (fun c r => do
      if ← IO.hasFinished r.task then
        match r.task.get with
        | .ok e => c.land r e
        | .error error => c.land r (.unreachable (toString error))
      else if r.deadline ≤ now then c.land r (.unreachable "operation timed out")
      else return { c with requests := c.requests ++ [r] })
    { c with requests := [] }

def tick (c : Client) (now : Nat) : IO Client := do
  if now < c.nextTick then return c
  let (poller, seq?, events) := c.poller.tick c.poller.run
  let c := { c with poller, nextTick := c.nextTick + c.settings.refreshMillis }
  let c ← c.take events
  match seq? with
  | none => return c
  | some seq =>
    let task ← IO.asTask (exchange c.settings.url)
    let request : Request := ⟨poller.run, seq, now + c.settings.timeoutMillis, task⟩
    return { c with requests := c.requests ++ [request] }

def report (c : Client) (now : Nat) : IO Client := do
  if now < c.nextStats then return c
  print (Console.statsLines c.poller c.record.history c.session)
  return { c with nextStats := c.nextStats + 60000 }

partial def work (c : Client) (interrupted : IO Bool) : IO Unit := do
  if ← interrupted then
    print [Console.stopLine]
  else
    let now ← IO.monoMsNow
    let c ← c.report now
    let c ← c.settle now
    let c ← c.tick now
    IO.sleep 5
    c.work interrupted

def start (settings : Settings) (now : Nat) : Client :=
  let poller : Poller (List Group) (FeedObserver Empty) := { policy := settings.policy }
  { settings
    poller := (poller.subscribe (.observer .feeder)).1.start
    record := ⟨History.empty settings.historyCapacity, [], none⟩
    nextTick := now
    nextStats := now }

end Client

end PoolWatch.CommandLine

open PoolWatch PoolWatch.CommandLine Std.Async in
def main : IO UInt32 := do
  match Settings.load (← environment) with
  | .error refusal =>
    IO.eprintln (Console.refusalText refusal)
    return 1
  | .ok settings =>
    let signal ← (← Signal.Waiter.mk .sigint false).wait
    print [Console.startLine settings]
    let client := Client.start settings (← IO.monoMsNow)
    client.work (IO.hasFinished signal)
    return 0
