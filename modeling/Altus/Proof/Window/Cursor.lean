import Altus.Proof.Window.FlowControl
import Altus.Proof.Window.Peek

namespace Altus.WindowedQueue

open Bytes Chain Runs UBList

section Cursor

variable {state : WQState} {view : View} {seq : U32}

end Cursor

end Altus.WindowedQueue
