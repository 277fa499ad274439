import PubSub.Client.Registration
import PubSub.Time.Clock
import PubSub.Time.Ticker

/-!
# Waiting for the server

A client that waits looks again after a fixed time until what it waits for is there or its patience
is at an end. Here nothing arrives while it waits, so it either finds what it waits for at once or
gives up at the first look after its patience has ended.
-/

namespace PubSub.Client

/-- The time between two looks. -/
def pollInterval : Duration := .ofMillis 20

/-- The clock when a client gives up that has had patience for `timeout`: at the first look that
does not come before. -/
def whenGivenUp (clock : Clock) (timeout : Duration) : Clock :=
  let step := (pollInterval.slept clock.elapsed).nanos
  clock.advance ⟨(timeout.nanos + (step - 1)) / step * step⟩

/-- Waits for a connection. -/
def awaitConnection (c : Client) (clock : Clock) (timeout : Duration) : Bool × Clock :=
  if c.connected then (true, clock) else (false, whenGivenUp clock timeout)

/-- Sends a request to the broker and waits for the answers. All requests have the same id, so the
answers to an earlier one that was given up are among them. -/
def ask (c : Client) (clock : Clock) (what : String) (timeout : Duration) :
    Except Error (List Message) × Client × Clock :=
  let (posted, c) := c.post clock.now (.text .serverRequest what "" (-1.0))
  if !posted then (.error .notConnected, c, clock)
  else
    let (answers, c) := c.peek requestId false
    if answers.isEmpty then
      (.error (.timeout ("server request " ++ what)), c, whenGivenUp clock timeout)
    else (.ok answers, c, clock)

end PubSub.Client
