import PubSub.Time.Duration

/-!
# What a server is told at its start
-/

namespace PubSub.Server

/-- What a server is told at its start. -/
structure Config where
  address : String
  /-- The community that the server tells its clients. -/
  community : String
  /-- A client that sends nothing for longer than this is disconnected. -/
  clientTimeout : Duration := .ofSeconds 5
  /-- How often the server looks for silent clients. -/
  checkInterval : Duration := .ofSeconds 1
  handshakeTimeout : Duration := .ofSeconds 5
  greatestPacket : Nat := 64 * 1024 * 1024
  /-- Whether asynchronous clients get mail without asking for it. -/
  supportsAsync : Bool := true
  noDelay : Bool := true
deriving DecidableEq

/-- The port of a server that is not told any. -/
def defaultPort : Nat := 9000

/-- The same with another timeout for clients, which is positive and finite. -/
def Config.withClientTimeout (c : Config) (seconds : Float) : Except Error Config :=
  if seconds ≤ 0.0 then .error (.clientTimeoutNotPositive seconds)
  else
    match Duration.ofFloat seconds with
    | .ok d => .ok { c with clientTimeout := d }
    | .error fault => .error (.invalidClientTimeout seconds fault)

end PubSub.Server
