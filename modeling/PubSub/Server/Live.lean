import PubSub.Broker.Live
import PubSub.Server.Basic

/-!
# A server in the course of time

A `LiveServer` is a server whose regular tasks run by a clock: the broker's housekeeping and the
search for silent clients. The server has handled all events before the clock moves on.
-/

namespace PubSub

/-- A server, its clock and its regular tasks. -/
structure LiveServer where
  server : Server
  clock : Clock
  housekeeping : Option Ticker
  silenceChecks : Option Ticker
deriving DecidableEq

namespace LiveServer

/-- Keeps the broker's house at the ticks that are due. -/
def keepHouse (l : LiveServer) : LiveServer :=
  match l.housekeeping with
  | none => l
  | some t =>
    let (broker, t) := t.run (·.keepHouseIfDue l.clock.now) l.clock.elapsed l.server.broker
    { l with housekeeping := some t, server := { l.server with broker } }

/-- Looks for silent clients at the ticks that are due. -/
def checkSilence (l : LiveServer) : LiveServer :=
  match l.silenceChecks with
  | none => l
  | some t =>
    let (server, t) := t.run (·.checkSilence l.clock) l.clock.elapsed l.server
    { l with silenceChecks := some t, server }

/-- Does everything that is due. -/
def settle (l : LiveServer) : Server.Effect × LiveServer :=
  let l := l.keepHouse.checkSilence
  let (effect, server) := l.server.dispatchAll l.clock
  (effect, { l with server })

/-- A server that starts now. -/
def start (config : Server.Config) (broker : Broker) (clock : Clock) : LiveServer :=
  (settle {
    server := { config, broker }
    clock
    housekeeping := Ticker.start? broker.config.summaryInterval clock.elapsed
    silenceChecks := Ticker.start? config.checkInterval clock.elapsed }).2

/-- Lets time pass. -/
def advance (l : LiveServer) (d : Duration) : Server.Effect × LiveServer :=
  { l with clock := l.clock.advance d }.settle

/-- Stops the regular tasks. -/
def shutdown (l : LiveServer) : LiveServer :=
  { l with housekeeping := none, silenceChecks := none }

end LiveServer

end PubSub
