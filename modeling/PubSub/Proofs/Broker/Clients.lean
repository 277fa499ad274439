import PubSub.Proofs.Broker.Run

/-!
# Who is connected

Only connecting and disconnecting change the set of connected clients; packets, fetched mail and
writes of the broker's own leave it as it is.
-/

namespace PubSub.Broker

theorem kept_clients : Kept Broker.clients := fun s hs b => congrArg (·.2.1) (kept_rest s hs b)

theorem clients_collect (b : Broker) (client : String) :
    (b.collect client).2.clients = b.clients :=
  kept_clients.collect b client

theorem clients_keepHouseIfDue (b : Broker) (now : Float) :
    (b.keepHouseIfDue now).clients = b.clients := by
  rw [keepHouseIfDue]
  split
  · exact kept_clients.keepHouse { b with summaryTime := now } now
  · rfl

theorem clients_recordLatency (b : Broker) (now : Float) (client : String) (ms : List Message) :
    (b.recordLatency now client ms).clients = b.clients := by
  rw [recordLatency]
  split <;> rfl

theorem clients_receive (b : Broker) (now : Float) (client : String) (ms : List Message) :
    (b.receive now client ms).2.clients = b.clients := by
  have hsettled : (b.settled now client ms).clients = b.clients := by
    rw [settled, clients_keepHouseIfDue, kept_clients.processAll, clients_recordLatency]
  rw [receive_eq]
  split
  · exact hsettled
  · exact (clients_collect ..).trans hsettled

theorem clients_connect (b : Broker) (now : Float) (client : String) :
    (b.connect now client).clients = b.clients.add client :=
  kept_clients.publishText ..

theorem clients_disconnect (b : Broker) (now : Float) (client : String) :
    (b.disconnect now client).clients = b.clients.erase client :=
  kept_clients.publishText ..

end PubSub.Broker
